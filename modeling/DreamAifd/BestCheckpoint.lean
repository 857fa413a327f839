import DreamAifd.Checkpoint
import DreamAifd.FloatOrder
import DreamAifd.Machine

/-! The best checkpoint of the trainer: a link in the checkpoint directory to the epoch with the least
validation loss. The trainer keeps that loss in memory, and a resumed one reads it back through the link. -/
namespace DreamAifd.BestCheckpoint

open Checkpoint Machine

/-- A finite loss, an infinite one, or none at all. -/
abbrev Loss := FloatNumber (WithBot (WithTop ℚ))

def infinity : Loss := .number ⊤

abbrev ValMetrics := Dict String Loss

/-- The checkpoint directory. An epoch's `val_metrics.json` is kept beside its other files; of the directory
`interrupted` only its presence is. -/
structure Directory where
  epochs : Root
  valMetrics : Dict Nat ValMetrics
  interrupted : Bool
  checkpointBest : Option Nat

def readBestEpoch (d : Directory) : Option Nat :=
  d.checkpointBest.filter fun epoch => (d.epochs.get? epoch).isSome

def recordedLoss (d : Directory) (epoch : Nat) : Option Loss :=
  (d.valMetrics.get? epoch).bind (·.get? "loss_epoch")

def loadBestValLoss (d : Directory) : Option Loss := (readBestEpoch d).bind (recordedLoss d)

/-- The save of `maybe_update_best`, which has no training state. -/
def saveWeights (config : TrainerConfig) : List Write :=
  [.makeDir, .truncate .model, .complete .model, .truncate .optimizer, .complete .optimizer] ++
    (if config.schedulerType = .none then [] else [.truncate .scheduler, .complete .scheduler])

def saveValMetrics (d : Directory) (epoch : Nat) (valMetrics : ValMetrics) : Directory :=
  { d with
    epochs := d.epochs.set epoch ((d.epochs.get? epoch).getD emptyDir)
    valMetrics := d.valMetrics.set epoch valMetrics }

def updateBestSymlink (d : Directory) (epoch : Nat) : Directory := { d with checkpointBest := some epoch }

/-- Raises when the directory to keep is missing. -/
def cleanupKeepOnlyBest (d : Directory) (bestEpoch : Nat) : Option Directory :=
  if (d.epochs.get? bestEpoch).isSome then
    some { d with
      epochs := d.epochs.only bestEpoch
      valMetrics := d.valMetrics.only bestEpoch
      interrupted := false }
  else none

/-- The decision of `maybe_update_best` on an epoch, which truncates the frequency. -/
def updatesEpoch (config : TrainerConfig) (epoch : Nat) : Bool :=
  config.saveBest || !(1 ≤ config.checkpointFreq &&
    !(epoch = 0 || (epoch + 1) % ⌊config.checkpointFreq⌋₊ = 0))

/-- The decision of `maybe_save_checkpoint`; with `save_best` every epoch may be saved. -/
def eligible (config : TrainerConfig) (epoch : Nat) : Bool := config.saveBest || savesEpoch config epoch

/-- `maybe_update_best` at the save the weights are of; `none` when it raises. -/
def maybeUpdateBest (config : TrainerConfig) (d : Directory) (bestValLoss : Loss) (weights : TrainingState)
    (valMetrics : ValMetrics) : Option (Directory × Loss) :=
  match valMetrics.get? "loss_epoch" with
  | none => some (d, bestValLoss)
  | some loss =>
    if loss.ge bestValLoss then some (d, bestValLoss)
    else if updatesEpoch config weights.epoch then
      let d := if config.saveBest then { d with epochs := performAll weights d.epochs (saveWeights config) } else d
      let d := updateBestSymlink (saveValMetrics d weights.epoch valMetrics) weights.epoch
      if config.saveBest then (cleanupKeepOnlyBest d weights.epoch).map (·, loss) else some (d, loss)
    else some (d, bestValLoss)

/-- An epoch before and after its `maybe_save_checkpoint`. -/
inductive Stage where
  | training | saved
  deriving DecidableEq, Repr

structure Trainer where
  currentEpoch : Nat
  globalStep : Nat
  stage : Stage
  bestValLoss : Loss

def setupTrainer (config : TrainerConfig) (d : Directory) : Trainer where
  currentEpoch := (Checkpoint.setupTrainer config d.epochs).currentEpoch
  globalStep := (Checkpoint.setupTrainer config d.epochs).globalStep
  stage := .training
  bestValLoss :=
    if config.resumeFromCheckpoint ∧ getPreviousEpoch d.epochs ≠ none then (loadBestValLoss d).getD infinity
    else infinity

/-- The directory, the trainer if one runs, and the losses of the epochs validated so far. -/
structure State where
  directory : Directory
  trainer : Option Trainer
  validated : List (Nat × Loss)

def initial : State := ⟨⟨Dict.empty, Dict.empty, false, none⟩, none, []⟩

/-- What happens between two places at which the trainer may be stopped. The steps of an epoch are any. -/
inductive Event where
  | start
  | saveMidEpoch (localStep globalStep : Nat)
  | saveEpoch (globalStep : Nat)
  | validate (valMetrics : Option ValMetrics)
  | stop (interrupted : Bool)

def saveMidEpoch (config : TrainerConfig) (s : State) (t : Trainer) (localStep globalStep : Nat) : State :=
  let weights : TrainingState := ⟨t.currentEpoch, localStep, globalStep⟩
  { s with
    directory := { s.directory with
      epochs := performAll weights s.directory.epochs (maybeSaveCheckpoint config weights) }
    trainer := some { t with globalStep } }

def saveEpoch (config : TrainerConfig) (s : State) (t : Trainer) (globalStep : Nat) : State :=
  let weights : TrainingState := ⟨t.currentEpoch, 0, globalStep⟩
  { s with
    directory := { s.directory with
      epochs := performAll weights s.directory.epochs (maybeSaveCheckpoint config weights) }
    trainer := some { t with globalStep, stage := .saved } }

def validate (config : TrainerConfig) (s : State) (t : Trainer) : Option ValMetrics → Option State
  | none => some { s with trainer := some { t with currentEpoch := t.currentEpoch + 1, stage := .training } }
  | some valMetrics =>
    (maybeUpdateBest config s.directory t.bestValLoss ⟨t.currentEpoch, 0, t.globalStep⟩ valMetrics).map
      fun updated =>
        { directory := updated.1
          trainer := some { t with
            currentEpoch := t.currentEpoch + 1, stage := .training, bestValLoss := updated.2 }
          validated := s.validated ++ ((valMetrics.get? "loss_epoch").map (t.currentEpoch, ·)).toList }

def step (config : TrainerConfig) (s : State) : Event → Option State
  | .start =>
    match s.trainer with
    | none => (Checkpoint.start config s.directory.epochs).map fun _ =>
        { s with trainer := some (setupTrainer config s.directory) }
    | some _ => none
  | .saveMidEpoch localStep globalStep => s.trainer.bind fun t =>
      if t.stage = .training ∧ t.currentEpoch < config.numEpochs ∧ config.checkpointFreq < 1 ∧
        config.saveBest = false ∧ 0 < localStep then some (saveMidEpoch config s t localStep globalStep)
      else none
  | .saveEpoch globalStep => s.trainer.bind fun t =>
      if t.stage = .training ∧ t.currentEpoch < config.numEpochs then some (saveEpoch config s t globalStep)
      else none
  | .validate valMetrics => s.trainer.bind fun t =>
      if t.stage = .saved then validate config s t valMetrics else none
  | .stop interrupted =>
    match s.trainer with
    | none => none
    | some _ => some { s with
        directory := { s.directory with interrupted := s.directory.interrupted || interrupted }
        trainer := none }

/-- The epoch of the link has a complete checkpoint, all of it saved at the end of that epoch. -/
def HoldsCheckpoint (config : TrainerConfig) (d : Directory) (epoch : Nat) : Prop :=
  ∃ dir weights, d.epochs.get? epoch = some dir ∧ weights.epoch = epoch ∧ weights.localStep = 0 ∧
    dir .model = .complete weights ∧ dir .optimizer = .complete weights ∧
    (config.schedulerType ≠ .none → dir .scheduler = .complete weights)

/-- What the link points to is complete, its recorded loss is the trainer's, and that loss is a number and
the least of all eligible epochs. -/
def BestKept (config : TrainerConfig) (s : State) : Prop :=
  ∀ epoch, s.directory.checkpointBest = some epoch → HoldsCheckpoint config s.directory epoch ∧
    ∃ loss, recordedLoss s.directory epoch = some loss ∧ (∀ t, s.trainer = some t → t.bestValLoss = loss) ∧
      (epoch, loss) ∈ s.validated ∧ eligible config epoch ∧ loss ≠ .nan ∧
      ∀ other ∈ s.validated, eligible config other.1 → other.2.ge loss

/-- A loss that is not kept out by the best one so far is a number, unless its epoch is not eligible, and the
two decisions on its epoch agree. -/
def ordered (config : TrainerConfig) (s : State) : Event → Bool
  | .validate (some valMetrics) =>
    match s.trainer, valMetrics.get? "loss_epoch" with
    | some t, some loss => loss.ge t.bestValLoss ||
        ((!eligible config t.currentEpoch || loss ≠ .nan) &&
          eligible config t.currentEpoch = updatesEpoch config t.currentEpoch)
    | _, _ => true
  | _ => true

/-- The files a returned save of the epoch leaves, its training state included where one is written. -/
def checkpointDir (config : TrainerConfig) (weights : TrainingState) : EpochDir := fun file =>
  if file = .trainingState ∧ config.saveBest then .absent else savedDir config weights file

def Stored (config : TrainerConfig) (epochs : Root) : Prop :=
  ∀ epoch dir, epochs.get? epoch = some dir → ∃ weights, weights.epoch = epoch ∧ dir = checkpointDir config weights

variable {config : TrainerConfig}

theorem checkpointDir_injective {first second : TrainingState}
    (same : checkpointDir config first = checkpointDir config second) : first = second := by
  have model := congrFun same .model
  simpa [checkpointDir, savedDir] using model

theorem Stored.getD {epochs : Root} (stored : Stored config epochs) (epoch : Nat) :
    (config.schedulerType = .none → (epochs.get? epoch).getD emptyDir .scheduler = .absent) ∧
      (config.saveBest → (epochs.get? epoch).getD emptyDir .trainingState = .absent) := by
  cases present : epochs.get? epoch with
  | none => exact ⟨fun _ => rfl, fun _ => rfl⟩
  | some dir =>
    obtain ⟨weights, -, rfl⟩ := stored epoch dir present
    constructor <;> intro without <;> simp [checkpointDir, savedDir, without]

theorem Stored.set {epochs : Root} (stored : Stored config epochs) (weights : TrainingState) :
    Stored config (epochs.set weights.epoch (checkpointDir config weights)) := by
  intro epoch dir present
  rw [Dict.get?_set] at present
  split at present
  next same => exact ⟨weights, same.symm, (Option.some.inj present).symm⟩
  next => exact stored epoch dir present

theorem Stored.only {epochs : Root} (stored : Stored config epochs) (epoch : Nat) :
    Stored config (epochs.only epoch) := by
  intro other dir present
  rw [Dict.get?_only] at present
  split at present
  next same => exact same ▸ stored epoch dir present
  next => exact absurd present (Option.some_ne_none dir).symm

theorem saveBest_of_savesEpoch {epoch : Nat} (saves : savesEpoch config epoch) : config.saveBest = false := by
  unfold savesEpoch at saves
  cases best : config.saveBest with
  | true => simp [best] at saves
  | false => rfl

theorem performAll_maybeSave {epochs : Root} (stored : Stored config epochs) (weights : TrainingState) :
    performAll weights epochs (maybeSaveCheckpoint config weights) =
      if savesEpoch config weights.epoch then epochs.set weights.epoch (checkpointDir config weights)
      else epochs := by
  unfold maybeSaveCheckpoint
  split
  next saves =>
    have whole : checkpointDir config weights = savedDir config weights := by
      funext file
      simp [checkpointDir, saveBest_of_savesEpoch saves]
    rw [performAll_eq _ _ (by simp [saveCheckpoint]), foldl_saveCheckpoint (stored.getD _).1, whole]
  next => rfl

theorem foldl_saveWeights {weights : TrainingState} {dir : EpochDir} (best : config.saveBest)
    (scheduler : config.schedulerType = .none → dir .scheduler = .absent) (state : dir .trainingState = .absent) :
    (saveWeights config).foldl (Write.apply weights) dir = checkpointDir config weights := by
  have saves : saveCheckpoint config =
      saveWeights config ++ [.truncate .trainingState, .complete .trainingState] := rfl
  have ordered : Ordered (saveWeights config) :=
    (List.pairwise_append.mp (saves ▸ saveCheckpoint_ordered config)).1
  funext file
  rw [foldl_apply ordered]
  by_cases without : config.schedulerType = .none <;>
    cases file <;> simp [saveWeights, checkpointDir, savedDir, without, scheduler, state, best]

def linkBest (config : TrainerConfig) (d : Directory) (weights : TrainingState) (valMetrics : ValMetrics) :
    Directory :=
  if config.saveBest then
    { epochs := (d.epochs.set weights.epoch (checkpointDir config weights)).only weights.epoch
      valMetrics := (d.valMetrics.set weights.epoch valMetrics).only weights.epoch
      interrupted := false
      checkpointBest := some weights.epoch }
  else updateBestSymlink (saveValMetrics d weights.epoch valMetrics) weights.epoch

/-- `maybe_update_best` never raises: it leaves everything, or makes its epoch the best. -/
theorem maybeUpdateBest_eq {d : Directory} (stored : Stored config d.epochs) (bestValLoss : Loss)
    (weights : TrainingState) {valMetrics : ValMetrics} {loss : Loss}
    (present : valMetrics.get? "loss_epoch" = some loss) :
    maybeUpdateBest config d bestValLoss weights valMetrics =
      if loss.ge bestValLoss = false ∧ updatesEpoch config weights.epoch then
        some (linkBest config d weights valMetrics, loss)
      else some (d, bestValLoss) := by
  rw [maybeUpdateBest, present]
  by_cases above : loss.ge bestValLoss
  · simp [above]
  by_cases updates : updatesEpoch config weights.epoch
  · by_cases best : config.saveBest
    · obtain ⟨scheduler, state⟩ := stored.getD weights.epoch
      have written : performAll weights d.epochs (saveWeights config) =
          d.epochs.set weights.epoch (checkpointDir config weights) := by
        rw [performAll_eq _ _ (by simp [saveWeights]), foldl_saveWeights best scheduler (state best)]
      simp [above, updates, best, written, linkBest, cleanupKeepOnlyBest, updateBestSymlink, saveValMetrics,
        Dict.set_get?]
    · simp [above, updates, best, linkBest]
  · simp [above, updates]

theorem linkBest_checkpointBest (config : TrainerConfig) (d : Directory) (weights : TrainingState)
    (valMetrics : ValMetrics) :
    (linkBest config d weights valMetrics).checkpointBest = some weights.epoch := by
  unfold linkBest
  split <;> rfl

theorem linkBest_recordedLoss (config : TrainerConfig) (d : Directory) (weights : TrainingState)
    (valMetrics : ValMetrics) :
    recordedLoss (linkBest config d weights valMetrics) weights.epoch = valMetrics.get? "loss_epoch" := by
  unfold linkBest recordedLoss
  split <;> simp [Dict.get?_only, updateBestSymlink, saveValMetrics]

/-- The clean-up keeps the new best directory; without `save_best` the epoch was saved before. -/
theorem linkBest_get? {d : Directory} {weights : TrainingState} (valMetrics : ValMetrics)
    (written : config.saveBest = false → d.epochs.get? weights.epoch = some (checkpointDir config weights)) :
    (linkBest config d weights valMetrics).epochs.get? weights.epoch = some (checkpointDir config weights) := by
  unfold linkBest
  cases best : config.saveBest with
  | true => simp [Dict.get?_only]
  | false => simp [updateBestSymlink, saveValMetrics, written best]

theorem linkBest_stored {d : Directory} (stored : Stored config d.epochs) {weights : TrainingState}
    (valMetrics : ValMetrics)
    (written : config.saveBest = false → d.epochs.get? weights.epoch = some (checkpointDir config weights)) :
    Stored config (linkBest config d weights valMetrics).epochs := by
  unfold linkBest
  cases best : config.saveBest with
  | true => exact (stored.set weights).only weights.epoch
  | false => simpa [updateBestSymlink, saveValMetrics, written best] using stored.set weights

theorem linkBest_keys {d : Directory} {weights : TrainingState} {valMetrics : ValMetrics} {epoch : Nat}
    (member : epoch ∈ (linkBest config d weights valMetrics).epochs.keys) :
    epoch = weights.epoch ∨ epoch ∈ d.epochs.keys := by
  obtain ⟨dir, present⟩ := Dict.mem_keys.mp member
  by_cases same : epoch = weights.epoch
  · exact .inl same
  · refine .inr (Dict.mem_keys.mpr ⟨dir, ?_⟩)
    unfold linkBest at present
    split at present
    next => simp [Dict.get?_only, same] at present
    next => simpa [updateBestSymlink, saveValMetrics, Dict.get?_set, same] using present

def eligibleLosses (config : TrainerConfig) (validated : List (Nat × Loss)) : List Loss :=
  (validated.filter fun result => eligible config result.1).map (·.2)

def recordedBest (d : Directory) : Loss := (loadBestValLoss d).getD infinity

/-- What the directory keeps, whether or not a trainer runs. -/
structure Linked (config : TrainerConfig) (d : Directory) (validated : List (Nat × Loss)) : Prop where
  stored : Stored config d.epochs
  least : (recordedBest d).LowerBound (eligibleLosses config validated)
  linked : ∀ epoch, d.checkpointBest = some epoch → eligible config epoch ∧
    (∃ globalStep, d.epochs.get? epoch = some (checkpointDir config ⟨epoch, 0, globalStep⟩)) ∧
    ∃ loss, recordedLoss d epoch = some loss ∧ (epoch, loss) ∈ validated

/-- A running trainer is past the best epoch, and has the loss that is recorded of it. -/
structure Running (config : TrainerConfig) (d : Directory) (t : Trainer) : Prop where
  best : t.bestValLoss = recordedBest d
  reached : ∀ epoch ∈ d.epochs.keys, epoch ≤ t.currentEpoch
  ahead : ∀ epoch, d.checkpointBest = some epoch → epoch < t.currentEpoch
  written : t.stage = .saved → savesEpoch config t.currentEpoch →
    d.epochs.get? t.currentEpoch = some (checkpointDir config ⟨t.currentEpoch, 0, t.globalStep⟩)

structure Invariant (config : TrainerConfig) (s : State) : Prop where
  directory : Linked config s.directory s.validated
  running : ∀ t, s.trainer = some t → Running config s.directory t

theorem recordedBest_of_present {d : Directory} {epoch : Nat} {dir : EpochDir}
    (best : d.checkpointBest = some epoch) (present : d.epochs.get? epoch = some dir) :
    recordedBest d = (recordedLoss d epoch).getD infinity := by
  simp [recordedBest, loadBestValLoss, readBestEpoch, best, present, Option.filter_some]

theorem recordedBest_of_linked {d : Directory} {validated : List (Nat × Loss)} (kept : Linked config d validated)
    {epoch : Nat} (best : d.checkpointBest = some epoch) :
    recordedLoss d epoch = some (recordedBest d) ∧ (epoch, recordedBest d) ∈ validated := by
  obtain ⟨-, ⟨globalStep, present⟩, loss, recorded, member⟩ := kept.linked epoch best
  have read : recordedBest d = loss := by
    rw [recordedBest_of_present best present, recorded, Option.getD_some]
  rw [read]
  exact ⟨recorded, member⟩

theorem recordedBest_of_none {d : Directory} (best : d.checkpointBest = none) : recordedBest d = infinity := by
  simp [recordedBest, loadBestValLoss, readBestEpoch, best]

/-- The invariant says all that is asked of the best checkpoint. -/
theorem bestKept_of_invariant {s : State} (invariant : Invariant config s) : BestKept config s := by
  intro epoch best
  obtain ⟨eligible, ⟨globalStep, present⟩, -⟩ := invariant.directory.linked epoch best
  obtain ⟨recorded, member⟩ := recordedBest_of_linked invariant.directory best
  refine ⟨⟨_, ⟨epoch, 0, globalStep⟩, present, rfl, rfl, ?_, ?_, ?_⟩, _, recorded, ?_, member, eligible, ?_, ?_⟩
  · simp [checkpointDir, savedDir]
  · simp [checkpointDir, savedDir]
  · intro scheduled
    simp [checkpointDir, savedDir, scheduled]
  · exact fun t live => (invariant.running t live).best
  · exact invariant.directory.least.number
  · intro other result may
    apply invariant.directory.least.below
    exact List.mem_map.mpr ⟨other, List.mem_filter.mpr ⟨result, may⟩, rfl⟩

theorem save_get? {d : Directory} (stored : Stored config d.epochs) {weights : TrainingState} {epoch : Nat}
    (other : epoch ≠ weights.epoch) :
    (performAll weights d.epochs (maybeSaveCheckpoint config weights)).get? epoch = d.epochs.get? epoch := by
  rw [performAll_maybeSave stored]
  split
  next => exact Dict.get?_set_ne _ _ other
  next => rfl

theorem Linked.save_recordedBest {d : Directory} {validated : List (Nat × Loss)}
    (kept : Linked config d validated) (weights : TrainingState)
    (ahead : ∀ epoch, d.checkpointBest = some epoch → epoch < weights.epoch) :
    recordedBest { d with epochs := performAll weights d.epochs (maybeSaveCheckpoint config weights) } =
      recordedBest d := by
  cases link : d.checkpointBest with
  | none => rw [recordedBest_of_none link, recordedBest_of_none rfl]
  | some epoch =>
    obtain ⟨-, ⟨globalStep, present⟩, -⟩ := kept.linked epoch link
    rw [recordedBest_of_present link present,
      recordedBest_of_present rfl ((save_get? kept.stored (ahead epoch link).ne).trans present)]
    rfl

/-- A save of the current epoch leaves the link and what it points to. -/
theorem Linked.save {d : Directory} {validated : List (Nat × Loss)} (kept : Linked config d validated)
    (weights : TrainingState) (ahead : ∀ epoch, d.checkpointBest = some epoch → epoch < weights.epoch) :
    Linked config { d with epochs := performAll weights d.epochs (maybeSaveCheckpoint config weights) }
      validated where
  stored := by
    rw [performAll_maybeSave kept.stored]
    split
    next => exact kept.stored.set weights
    next => exact kept.stored
  least := kept.save_recordedBest weights ahead ▸ kept.least
  linked epoch link := by
    rw [save_get? kept.stored (ahead epoch link).ne]
    exact kept.linked epoch link

theorem save_keys {d : Directory} (stored : Stored config d.epochs) {weights : TrainingState} {epoch : Nat}
    (member : epoch ∈ (performAll weights d.epochs (maybeSaveCheckpoint config weights)).keys) :
    epoch = weights.epoch ∨ epoch ∈ d.epochs.keys := by
  rw [performAll_maybeSave stored] at member
  split at member
  next =>
    obtain ⟨dir, present⟩ := Dict.mem_keys.mp member
    by_cases same : epoch = weights.epoch
    · exact .inl same
    · exact .inr (Dict.mem_keys.mpr ⟨dir, Dict.get?_set_ne _ _ same ▸ present⟩)
  next => exact .inr member

theorem eligibleLosses_concat (validated : List (Nat × Loss)) (epoch : Nat) (loss : Loss) :
    eligibleLosses config (validated ++ [(epoch, loss)]) =
      eligibleLosses config validated ++ if eligible config epoch then [loss] else [] := by
  by_cases may : eligible config epoch <;> simp [eligibleLosses, may]

/-- A validated epoch that is not below the best one changes nothing. -/
theorem Linked.keep {d : Directory} {validated : List (Nat × Loss)} (kept : Linked config d validated)
    {epoch : Nat} {loss : Loss} (above : eligible config epoch → loss.ge (recordedBest d)) :
    Linked config d (validated ++ [(epoch, loss)]) := by
  refine ⟨kept.stored, ?_, fun best link => ?_⟩
  · rw [eligibleLosses_concat]
    split
    next may => exact kept.least.concat (above may)
    next => exact (List.append_nil (eligibleLosses config validated)).symm ▸ kept.least
  · obtain ⟨may, present, loss, recorded, member⟩ := kept.linked best link
    exact ⟨may, present, loss, recorded, List.mem_append_left _ member⟩

/-- An epoch below the best one is the least of all once it is linked. -/
theorem Linked.replace {d : Directory} {validated : List (Nat × Loss)} (kept : Linked config d validated)
    {epoch globalStep : Nat} {valMetrics : ValMetrics} {loss : Loss}
    (present : valMetrics.get? "loss_epoch" = some loss) (number : loss ≠ .nan)
    (below : loss.ge (recordedBest d) = false) (may : eligible config epoch)
    (written : config.saveBest = false →
      d.epochs.get? epoch = some (checkpointDir config ⟨epoch, 0, globalStep⟩)) :
    Linked config (linkBest config d ⟨epoch, 0, globalStep⟩ valMetrics) (validated ++ [(epoch, loss)]) ∧
      recordedBest (linkBest config d ⟨epoch, 0, globalStep⟩ valMetrics) = loss := by
  have link := linkBest_checkpointBest config d ⟨epoch, 0, globalStep⟩ valMetrics
  have recorded := (linkBest_recordedLoss config d ⟨epoch, 0, globalStep⟩ valMetrics).trans present
  have stays : (linkBest config d ⟨epoch, 0, globalStep⟩ valMetrics).epochs.get? epoch =
      some (checkpointDir config ⟨epoch, 0, globalStep⟩) := linkBest_get? valMetrics written
  have best : recordedBest (linkBest config d ⟨epoch, 0, globalStep⟩ valMetrics) = loss := by
    rw [recordedBest_of_present link stays, recorded, Option.getD_some]
  refine ⟨⟨linkBest_stored kept.stored valMetrics written, ?_, ?_⟩, best⟩
  · rw [eligibleLosses_concat, if_pos may, best]
    exact kept.least.replace number below
  · intro other otherLink
    obtain rfl := Option.some.inj (link.symm.trans otherLink)
    exact ⟨may, ⟨globalStep, stays⟩, loss, recorded, List.mem_append_right _ (List.mem_singleton_self _)⟩

/-- A resumed trainer goes on behind every finished epoch, and in an epoch that was saved before its end. -/
theorem setupTrainer_currentEpoch (resumes : config.resumeFromCheckpoint = true) {epochs : Root}
    (stored : Stored config epochs) {previous : Nat} (largest : getPreviousEpoch epochs = some previous) :
    ∃ weights, epochs.get? previous = some (checkpointDir config weights) ∧
      previous ≤ (Checkpoint.setupTrainer config epochs).currentEpoch ∧
      (weights.localStep = 0 → previous < (Checkpoint.setupTrainer config epochs).currentEpoch) := by
  obtain ⟨dir, present⟩ := Dict.mem_keys.mp (getPreviousEpoch_mem largest)
  obtain ⟨weights, same, rfl⟩ := stored previous dir present
  refine ⟨weights, present, ?_⟩
  rw [Checkpoint.setupTrainer, largest]
  simp only [resumes, if_true, present, Option.getD_some]
  by_cases best : config.saveBest
  · simp [checkpointDir, best, Content.read, resumePosition]
  · have state : (checkpointDir config weights .trainingState).read = some weights := by
      simp [checkpointDir, best, savedDir, Content.read]
    rw [state, ← same, resumePosition_some, TrainingState.position]
    split
    next middle =>
      exact ⟨le_refl _, fun ended => absurd middle (by simp [ended])⟩
    next => exact ⟨Nat.le_succ _, fun _ => Nat.lt_succ_self _⟩

theorem le_previousEpoch {epochs : Root} {epoch previous : Nat} (member : epoch ∈ epochs.keys)
    (largest : getPreviousEpoch epochs = some previous) : epoch ≤ previous := by
  unfold getPreviousEpoch at largest
  rw [dif_pos ⟨epoch, member⟩] at largest
  exact Option.some.inj largest ▸ epochs.keys.le_max' epoch member

theorem previousEpoch_of_mem {epochs : Root} {epoch : Nat} (member : epoch ∈ epochs.keys) :
    ∃ previous, getPreviousEpoch epochs = some previous := by
  unfold getPreviousEpoch
  exact ⟨_, dif_pos ⟨epoch, member⟩⟩

theorem running_setupTrainer (resumes : config.resumeFromCheckpoint = true) {d : Directory}
    {validated : List (Nat × Loss)} (kept : Linked config d validated) :
    Running config d (setupTrainer config d) where
  best := by
    unfold setupTrainer
    split
    next => rfl
    next fresh =>
      cases link : d.checkpointBest with
      | none => exact (recordedBest_of_none link).symm
      | some epoch =>
        obtain ⟨-, ⟨globalStep, present⟩, -⟩ := kept.linked epoch link
        obtain ⟨previous, largest⟩ := previousEpoch_of_mem (Dict.mem_keys.mpr ⟨_, present⟩)
        exact absurd ⟨resumes, largest ▸ Option.some_ne_none previous⟩ fresh
  reached epoch member := by
    obtain ⟨previous, largest⟩ := previousEpoch_of_mem member
    obtain ⟨weights, -, reached, -⟩ := setupTrainer_currentEpoch resumes kept.stored largest
    exact (le_previousEpoch member largest).trans reached
  ahead epoch link := by
    obtain ⟨-, ⟨globalStep, present⟩, -⟩ := kept.linked epoch link
    have member := Dict.mem_keys.mpr ⟨_, present⟩
    obtain ⟨previous, largest⟩ := previousEpoch_of_mem member
    obtain ⟨weights, last, reached, ended⟩ := setupTrainer_currentEpoch resumes kept.stored largest
    rcases (le_previousEpoch member largest).lt_or_eq with below | same
    · exact below.trans_le reached
    · subst same
      -- The best epoch was saved at its end, so training does not go on inside it.
      obtain rfl := checkpointDir_injective (Option.some.inj (present.symm.trans last))
      exact ended rfl
  written stage := by simp [setupTrainer] at stage

theorem invariant_initial (config : TrainerConfig) : Invariant config initial where
  directory :=
    { stored := fun epoch dir present => by simp [initial] at present
      least := .nil (by simp [initial, recordedBest_of_none, infinity])
      linked := fun epoch link => by simp [initial] at link }
  running t live := by simp [initial] at live

theorem invariant_saveMidEpoch {s : State} (invariant : Invariant config s) {t : Trainer}
    (live : s.trainer = some t) (stage : t.stage = .training) (localStep globalStep : Nat) :
    Invariant config (saveMidEpoch config s t localStep globalStep) := by
  have running := invariant.running t live
  refine ⟨invariant.directory.save ⟨_, localStep, globalStep⟩ running.ahead, fun u now => ?_⟩
  cases now
  refine ⟨?_, fun epoch member => ?_, running.ahead, fun ended => ?_⟩
  · exact running.best.trans (invariant.directory.save_recordedBest ⟨_, localStep, globalStep⟩ running.ahead).symm
  · rcases save_keys invariant.directory.stored member with rfl | earlier
    · exact le_refl _
    · exact running.reached epoch earlier
  · rw [stage] at ended
    cases ended

theorem invariant_saveEpoch {s : State} (invariant : Invariant config s) {t : Trainer}
    (live : s.trainer = some t) (globalStep : Nat) : Invariant config (saveEpoch config s t globalStep) := by
  have running := invariant.running t live
  refine ⟨invariant.directory.save ⟨_, 0, globalStep⟩ running.ahead, fun u now => ?_⟩
  cases now
  refine ⟨?_, fun epoch member => ?_, running.ahead, fun _ saves => ?_⟩
  · exact running.best.trans (invariant.directory.save_recordedBest ⟨_, 0, globalStep⟩ running.ahead).symm
  · rcases save_keys invariant.directory.stored member with rfl | earlier
    · exact le_refl _
    · exact running.reached epoch earlier
  · have written := performAll_maybeSave invariant.directory.stored ⟨t.currentEpoch, 0, globalStep⟩
    simp only [saves, if_true] at written
    simp only [saveEpoch, written, Dict.get?_set_self]

/-- An epoch whose best checkpoint stays is behind the trainer in the next one. -/
theorem Running.next {d : Directory} {t : Trainer} (running : Running config d t) :
    Running config d { t with currentEpoch := t.currentEpoch + 1, stage := .training } where
  best := running.best
  reached epoch member := (running.reached epoch member).trans (Nat.le_succ _)
  ahead epoch link := (running.ahead epoch link).trans (Nat.lt_succ_self _)
  written stage := by simp at stage

theorem invariant_validate {s s' : State} (invariant : Invariant config s) {t : Trainer}
    (live : s.trainer = some t) (stage : t.stage = .saved) {valMetrics : Option ValMetrics}
    (allowed : ordered config s (.validate valMetrics)) (stepped : validate config s t valMetrics = some s') :
    Invariant config s' := by
  have running := invariant.running t live
  cases valMetrics with
  | none =>
    cases stepped
    refine ⟨invariant.directory, fun u now => ?_⟩
    cases now
    exact running.next
  | some valMetrics =>
    cases present : valMetrics.get? "loss_epoch" with
    | none =>
      simp only [validate, maybeUpdateBest, present, Option.map_some, Option.map_none, Option.toList_none,
        List.append_nil, Option.some.injEq] at stepped
      subst stepped
      refine ⟨invariant.directory, fun u now => ?_⟩
      cases now
      exact running.next
    | some loss =>
      simp only [ordered, live, present] at allowed
      rw [validate, maybeUpdateBest_eq invariant.directory.stored _ _ present, present] at stepped
      split at stepped
      next replaced =>
        obtain ⟨below, updates⟩ := replaced
        simp only [below, Bool.false_or, Bool.and_eq_true, decide_eq_true_eq] at allowed
        obtain ⟨number, agree⟩ := allowed
        have may : eligible config t.currentEpoch := agree.trans updates
        simp only [may, Bool.not_true, Bool.false_or, decide_eq_true_eq] at number
        cases stepped
        have written : config.saveBest = false → s.directory.epochs.get? t.currentEpoch =
            some (checkpointDir config ⟨t.currentEpoch, 0, t.globalStep⟩) := by
          intro best
          apply running.written stage
          simpa [eligible, best] using may
        obtain ⟨kept, best⟩ := invariant.directory.replace present number (running.best ▸ below) may written
        refine ⟨kept, fun u now => ?_⟩
        cases now
        refine ⟨best.symm, fun epoch member => ?_, fun epoch link => ?_, fun ended => by simp at ended⟩
        · rcases linkBest_keys member with rfl | earlier
          · exact Nat.le_succ _
          · exact (running.reached epoch earlier).trans (Nat.le_succ _)
        · rw [linkBest_checkpointBest] at link
          exact Option.some.inj link ▸ Nat.lt_succ_self _
      next stays =>
        cases stepped
        refine ⟨invariant.directory.keep fun may => ?_, fun u now => ?_⟩
        · by_contra below
          rw [Bool.not_eq_true, ← running.best] at below
          simp only [below, Bool.false_or, Bool.and_eq_true, decide_eq_true_eq] at allowed
          exact stays ⟨below, allowed.2 ▸ may⟩
        · cases now
          exact running.next

theorem invariant_step (resumes : config.resumeFromCheckpoint = true) {s s' : State} {event : Event}
    (invariant : Invariant config s) (allowed : ordered config s event) (stepped : step config s event = some s') :
    Invariant config s' := by
  cases event with
  | start =>
    simp only [step] at stepped
    split at stepped
    next =>
      obtain ⟨started, -, rfl⟩ := Option.map_eq_some_iff.mp stepped
      refine ⟨invariant.directory, fun t now => ?_⟩
      cases now
      exact running_setupTrainer resumes invariant.directory
    next => exact absurd stepped (Option.some_ne_none s').symm
  | saveMidEpoch localStep globalStep =>
    obtain ⟨t, live, saved⟩ := Option.bind_eq_some_iff.mp stepped
    split at saved
    next allows =>
      cases saved
      exact invariant_saveMidEpoch invariant live allows.1 localStep globalStep
    next => exact absurd saved (Option.some_ne_none s').symm
  | saveEpoch globalStep =>
    obtain ⟨t, live, saved⟩ := Option.bind_eq_some_iff.mp stepped
    split at saved
    next =>
      cases saved
      exact invariant_saveEpoch invariant live globalStep
    next => exact absurd saved (Option.some_ne_none s').symm
  | validate valMetrics =>
    obtain ⟨t, live, validated⟩ := Option.bind_eq_some_iff.mp stepped
    split at validated
    next stage => exact invariant_validate invariant live stage allowed validated
    next => exact absurd validated (Option.some_ne_none s').symm
  | stop interrupted =>
    simp only [step] at stepped
    split at stepped
    next => exact absurd stepped (Option.some_ne_none s').symm
    next =>
      cases stepped
      refine ⟨⟨invariant.directory.stored, invariant.directory.least, invariant.directory.linked⟩, ?_⟩
      intro t now
      cases now

/-- In every run in which no loss that is not a number reaches the comparison of an eligible epoch, and in which
the two decisions agree on every epoch below the best one, the best checkpoint is kept. -/
theorem bestKept_of_ordered (resumes : config.resumeFromCheckpoint = true) {events : List Event} {s : State}
    (allows : along (step config) (ordered config) events initial)
    (ran : run (step config) events initial = some s) : BestKept config s :=
  bestKept_of_invariant
    (run_invariant_along (invariant_step resumes) (invariant_initial config) allows ran)

def acceptsFreq (value : ℚ) : Bool := 0 < value && !(1 < value && value.den ≠ 1)

theorem accepted_eq_natCast {value : ℚ} (accepted : acceptsFreq value) (whole : 1 ≤ value) :
    ∃ count : Nat, value = count := by
  have integral : value.den = 1 := by
    rcases whole.lt_or_eq with above | same
    · simpa [acceptsFreq, above] using And.right (Bool.and_eq_true_iff.mp accepted)
    · rw [← same]
      rfl
  refine ⟨value.num.toNat, ?_⟩
  have sign : 0 ≤ value.num := Rat.num_nonneg.mpr (zero_le_one.trans whole)
  rw [← Int.cast_natCast, Int.toNat_of_nonneg sign]
  exact ((Rat.den_eq_one_iff value).mp integral).symm

/-- On every frequency of the command line the two decisions agree. -/
theorem eligible_eq_updatesEpoch (accepted : acceptsFreq config.checkpointFreq) (epoch : Nat) :
    eligible config epoch = updatesEpoch config epoch := by
  unfold eligible updatesEpoch savesEpoch
  by_cases whole : 1 ≤ config.checkpointFreq
  · obtain ⟨count, freq⟩ := accepted_eq_natCast accepted whole
    have positive : count ≠ 0 := by
      rintro rfl
      norm_num [freq] at whole
    have divides : (((epoch : ℚ) + 1) / count).den = 1 ↔ (epoch + 1) % count = 0 := by
      rw [← Nat.dvd_iff_mod_eq_zero, ← Rat.den_div_natCast_eq_one_iff _ _ positive, Nat.cast_succ]
    rw [freq] at whole ⊢
    rw [Nat.floor_natCast]
    by_cases best : config.saveBest <;> by_cases first : epoch = 0 <;> simp [best, whole, first, divides]
  · simp [whole]

def everyEpoch : TrainerConfig := ⟨3, true, .linear, 1, false, 1⟩

def losses (loss : Loss) : ValMetrics := Dict.empty.set "loss_epoch" loss

def fraction (value : ℚ) : Loss := .number (value : WithTop ℚ)

/-- The second epoch is better, and it is trained by a resumed trainer. -/
def betterAfterResume : List Event :=
  [.start, .saveEpoch 8, .validate (some (losses (fraction (1 / 2)))), .stop true, .start, .saveEpoch 16,
    .validate (some (losses (fraction (1 / 4))))]

theorem bestKept_betterAfterResume : ∃ s, run (step everyEpoch) betterAfterResume initial = some s ∧
    s.directory.checkpointBest = some 1 ∧ BestKept everyEpoch s := by
  have ends : (run (step everyEpoch) betterAfterResume initial).map (·.directory.checkpointBest) =
      some (some 1) := by decide +kernel
  obtain ⟨s, ran, link⟩ := Option.map_eq_some_iff.mp ends
  exact ⟨s, ran, link, bestKept_of_ordered rfl (by decide +kernel) ran⟩

def nanAfterHalf : List Event :=
  [.start, .saveEpoch 8, .validate (some (losses (fraction (1 / 2)))), .saveEpoch 16,
    .validate (some (losses .nan))]

/-- The epoch whose loss is not a number is linked as the best. -/
theorem not_bestKept_nan : ¬ ∀ (config : TrainerConfig) (events : List Event) (s : State),
    config.resumeFromCheckpoint = true → run (step config) events initial = some s → BestKept config s := by
  intro kept
  have ends : (run (step everyEpoch) nanAfterHalf initial).map
      (fun s => (s.directory.checkpointBest, recordedLoss s.directory 1)) = some (some 1, some .nan) := by
    decide +kernel
  obtain ⟨s, ran, linked⟩ := Option.map_eq_some_iff.mp ends
  obtain ⟨link, recorded⟩ := Prod.mk.injEq .. ▸ linked
  obtain ⟨-, loss, read, -, -, -, number, -⟩ := kept everyEpoch nanAfterHalf s rfl ran 1 link
  exact number (Option.some.inj (read.symm.trans recorded))

end DreamAifd.BestCheckpoint
