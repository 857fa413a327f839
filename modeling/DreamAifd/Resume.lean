import DreamAifd.GradAccumulation

/-! A run stopped right after a mid-epoch checkpoint and resumed from it, beside the run that
was not interrupted: what both visit, step on and save is told by the epochs' batch lists
alone, whatever the weights. -/
namespace DreamAifd.Training

open Checkpoint

variable {σ β V : Type*} [AddCommGroup V] [Module ℚ V]

namespace Trainer

/-- `Trainer.__init__` at a position; making schedulers takes the loader's length. -/
def init (config : TrainerConfig) (packed : Nat → List β) (position : Checkpoint.Position) (model : σ) (grad : V) :
    Trainer σ β V :=
  ⟨model, grad, position.globalStep, position.currentEpoch, position.localStep,
    ⟨packed, 0, if config.schedulerType = .none then none else some (0, packed 0)⟩, .empty⟩

/-- The run up to the end of a step of an epoch. -/
def stoppedAfter (config : TrainerConfig) (learner : Learner σ β V) (epoch localStep : Nat)
    (s : Trainer σ β V) : Trainer σ β V :=
  let s := trainEpochs config learner s (List.range' s.currentEpoch (epoch - s.currentEpoch))
  let (plan, batches, s) := enterEpoch config epoch s
  trainSteps config learner plan 1 s (batches.take localStep)

end Trainer

/-- What is observed of a run: the micro-batches visited, the batches that each optimizer
step consumes, and the checkpoints. -/
@[ext] structure Record (β : Type*) where
  visited : List (Micro β)
  windows : List (List β)
  checkpoints : List TrainingState

namespace Record

def empty : Record β := ⟨[], [], []⟩

def append (r t : Record β) : Record β :=
  ⟨r.visited ++ t.visited, r.windows ++ t.windows, r.checkpoints ++ t.checkpoints⟩

theorem append_assoc (r t u : Record β) : (r.append t).append u = r.append (t.append u) := by
  simp [append]

@[simp] theorem append_empty (r : Record β) : r.append empty = r := by
  simp [append, empty]

@[simp] theorem empty_append (r : Record β) : empty.append r = r := by
  simp [append, empty]

end Record

def Ledger.record (ledger : Ledger β V) : Record β :=
  ⟨ledger.visited.map Prod.fst, ledger.updates.map fun update => update.window.map fun back => back.1.batch,
    ledger.checkpoints⟩

def planOf (config : TrainerConfig) (packed : Nat → List β) (epoch skipSteps : Nat) : EpochPlan :=
  ⟨epoch, (packed epoch).length, accumSteps config, skipSteps, stepInterval config (packed epoch).length⟩

def stepsRecord (config : TrainerConfig) (plan : EpochPlan) (globalStep : Nat) (batches : List β) : Record β :=
  ⟨micros plan globalStep batches, closedWindows plan batches,
    savedStates config plan globalStep batches.length⟩

def epochRecord (config : TrainerConfig) (packed : Nat → List β) (skipSteps globalStep epoch : Nat) :
    Record β :=
  (stepsRecord config (planOf config packed epoch skipSteps) globalStep ((packed epoch).drop skipSteps)).append
    ⟨[], [], [⟨epoch, 0, globalStep + ((packed epoch).length - skipSteps)⟩]⟩

def epochsRecord (config : TrainerConfig) (packed : Nat → List β) (globalStep : Nat) : List Nat → Record β
  | [] => .empty
  | epoch :: epochs => (epochRecord config packed 0 globalStep epoch).append
      (epochsRecord config packed (globalStep + (packed epoch).length) epochs)

theorem closedWindows_map {α γ : Type*} (f : α → γ) (plan : EpochPlan) (visited : List α) :
    closedWindows plan (visited.map f) = (closedWindows plan visited).map (List.map f) := by
  rw [closedWindows, closedWindows, Windows.full_map, Windows.rest_map, List.length_map, List.map_append]
  split <;> rfl

@[simp] theorem map_batch_micros (plan : EpochPlan) (globalStep : Nat) (batches : List β) :
    (micros plan globalStep batches).map Micro.batch = batches := by
  apply List.ext_getElem
  · simp
  · intro k _ _
    simp [micros]

/-- The observed part of a loop's turns. -/
theorem Trained.record {config : TrainerConfig} {learner : Learner σ β V} {plan : EpochPlan}
    {entered s : Trainer σ β V} {batches : List β} {visited : List (Backward β V)}
    (trained : Trained config learner plan entered batches visited s) :
    s.ledger.record = entered.ledger.record.append
      (stepsRecord config plan entered.globalStep batches) := by
  have windows : (closedWindows plan visited).map (List.map fun back => back.1.batch) =
      closedWindows plan batches := by
    rw [← closedWindows_map]
    congr 1
    rw [← map_batch_micros plan entered.globalStep batches, ← trained.micros_eq, List.map_map]
    rfl
  simp only [Ledger.record, Record.append, stepsRecord, trained.visited_eq, trained.updates_eq,
    trained.checkpoints_eq, List.map_append, trained.micros_eq, ← windows, List.map_map]
  rfl

omit [AddCommGroup V] [Module ℚ V] in
theorem record_maybeSaveCheckpoint (s : Trainer σ β V) (epoch localStep : Nat) :
    (s.maybeSaveCheckpoint epoch localStep).ledger.record =
      s.ledger.record.append ⟨[], [], [⟨epoch, localStep, s.globalStep⟩]⟩ := by
  simp [Ledger.record, Record.append, Trainer.maybeSaveCheckpoint]

/-- The state `t` after some epochs from `s`, none of which is entered behind its start. -/
structure Continued (config : TrainerConfig) (s : Trainer σ β V) (epochs : List Nat) (t : Trainer σ β V) :
    Prop where
  record_eq : t.ledger.record = s.ledger.record.append
    (epochsRecord config s.sampler.packed s.globalStep epochs)
  globalStep_eq : t.globalStep = s.globalStep + (epochs.map fun epoch => (s.sampler.packed epoch).length).sum
  currentEpoch_eq : t.currentEpoch = s.currentEpoch
  packed_eq : t.sampler.packed = s.sampler.packed
  skip : ∀ epoch, s.skipSteps epoch = 0 → t.skipSteps epoch = 0
  fresh : ∀ epoch, epoch ∉ epochs → s.sampler.Fresh epoch → t.sampler.Fresh epoch

/-- One epoch, which may be entered behind its start. -/
theorem trainEpoch_record (config : TrainerConfig) (learner : Learner σ β V) {epoch : Nat}
    {s : Trainer σ β V} (fresh : s.sampler.Fresh epoch) :
    let t := (s.trainEpoch config learner epoch).maybeSaveCheckpoint epoch 0
    t.ledger.record = s.ledger.record.append
        (epochRecord config s.sampler.packed (s.skipSteps epoch) s.globalStep epoch) ∧
      t.globalStep = s.globalStep + ((s.sampler.packed epoch).length - s.skipSteps epoch) ∧
      t.currentEpoch = s.currentEpoch ∧
      t.sampler.packed = s.sampler.packed ∧
      (∀ other, other = epoch ∨ s.skipSteps other = 0 → t.skipSteps other = 0) ∧
      ∀ other, other ≠ epoch → t.sampler.Fresh other := by
  obtain ⟨visited, trained⟩ := trainEpoch_trained config learner fresh
  have size := length_epochBatches s epoch
  have step : (s.trainEpoch config learner epoch).globalStep =
      s.globalStep + ((s.sampler.packed epoch).length - s.skipSteps epoch) := by
    rw [trained.globalStep_eq, size]
    rfl
  intro t
  have entered : t.sampler = (s.entered epoch).sampler := trained.sampler_eq
  refine ⟨?_, step, trained.currentEpoch_eq, ?_, ?_, ?_⟩
  · rw [record_maybeSaveCheckpoint, trained.record, Record.append_assoc, step]
    rfl
  · rw [entered]
    rfl
  · intro other unskipped
    have resume : t.resumeLocalStep = if epoch = s.currentEpoch then 0 else s.resumeLocalStep :=
      trained.resumeLocalStep_eq
    have current : t.currentEpoch = s.currentEpoch := trained.currentEpoch_eq
    rw [Trainer.skipSteps, resume, current]
    rw [Trainer.skipSteps] at unskipped
    by_cases now : epoch = s.currentEpoch
    · rw [if_pos now, ite_self]
    · rw [if_neg now]
      rcases unskipped with same | unskipped
      · rw [if_neg (same ▸ now)]
      · exact unskipped
  · intro other different batches cached
    rw [entered] at cached
    cases cached
    exact absurd rfl different

omit [AddCommGroup V] [Module ℚ V] in
theorem Continued.nil (config : TrainerConfig) (s : Trainer σ β V) : Continued config s [] s := by
  constructor <;> simp [epochsRecord]

theorem Continued.cons {config : TrainerConfig} {learner : Learner σ β V} {epoch : Nat} {epochs : List Nat}
    {s t : Trainer σ β V} (fresh : s.sampler.Fresh epoch) (whole : s.skipSteps epoch = 0)
    (later : Continued config ((s.trainEpoch config learner epoch).maybeSaveCheckpoint epoch 0) epochs t) :
    Continued config s (epoch :: epochs) t := by
  obtain ⟨record, step, current, packed, skip, freshen⟩ := trainEpoch_record config learner fresh
  rw [whole] at record step
  constructor
  case record_eq =>
    rw [later.record_eq, record, packed, step, Record.append_assoc]
    rfl
  case globalStep_eq => rw [later.globalStep_eq, step, packed, List.map_cons, List.sum_cons, Nat.add_assoc,
      Nat.sub_zero]
  case currentEpoch_eq => exact later.currentEpoch_eq.trans current
  case packed_eq => exact later.packed_eq.trans packed
  case skip => exact fun other unskipped => later.skip other (skip other (.inr unskipped))
  case fresh =>
    intro other outside _
    obtain ⟨different, outside⟩ := not_or.mp (mt List.mem_cons.mpr outside)
    exact later.fresh other outside (freshen other different)

theorem trainEpochs_continued (config : TrainerConfig) (learner : Learner σ β V) {epochs : List Nat}
    (distinct : epochs.Nodup) {s : Trainer σ β V} (fresh : ∀ epoch ∈ epochs, s.sampler.Fresh epoch)
    (whole : ∀ epoch ∈ epochs, s.skipSteps epoch = 0) :
    Continued config s epochs (s.trainEpochs config learner epochs) := by
  induction epochs generalizing s with
  | nil => exact Continued.nil config s
  | cons epoch epochs ih =>
    obtain ⟨outside, distinct⟩ := List.nodup_cons.mp distinct
    have first := fresh epoch List.mem_cons_self
    obtain ⟨-, -, -, -, skip, freshen⟩ := trainEpoch_record config learner first
    apply Continued.cons first (whole epoch List.mem_cons_self)
    apply ih distinct
    · intro other member
      exact freshen other fun same => outside (same ▸ member)
    · intro other member
      exact skip other (.inr (whole other (List.mem_cons_of_mem epoch member)))

/-- A step of an epoch after which the uninterrupted run saves. -/
def Checkpointed (config : TrainerConfig) (packed : Nat → List β) (epoch localStep : Nat) : Prop :=
  epoch < config.numEpochs ∧ 0 < localStep ∧
    savesStep config (planOf config packed epoch 0) localStep = true

theorem Checkpointed.lt {config : TrainerConfig} {packed : Nat → List β} {epoch localStep : Nat}
    (checkpointed : Checkpointed config packed epoch localStep) : localStep < (packed epoch).length := by
  obtain ⟨-, -, saves⟩ := checkpointed
  simp only [savesStep, planOf, stepInterval] at saves
  split at saves
  next interval given =>
    split at given
    next =>
      have size : 1 ≤ interval := by
        rw [← Option.some.inj given]
        omega
      have room := of_decide_eq_true (Bool.and_eq_true_iff.mp saves).2
      omega
    next => exact absurd given (Option.some_ne_none interval).symm
  next => exact absurd saves Bool.false_ne_true

theorem Checkpointed.savesEpoch {config : TrainerConfig} {packed : Nat → List β} {epoch localStep : Nat}
    (checkpointed : Checkpointed config packed epoch localStep) : savesEpoch config epoch = true := by
  obtain ⟨-, -, saves⟩ := checkpointed
  simp only [savesStep, planOf, stepInterval] at saves
  split at saves
  next interval given =>
    split at given
    next below =>
      simp only [Bool.and_eq_true, Bool.not_eq_true'] at saves
      simp [Checkpoint.savesEpoch, saves.1.1, below]
    next => exact absurd given (Option.some_ne_none interval).symm
  next => exact absurd saves Bool.false_ne_true

section Runs

variable (config : TrainerConfig) (learner : Learner σ β V) (packed : Nat → List β)

def freshRun (model : σ) (grad : V) : Trainer σ β V :=
  Trainer.init config packed (setupTrainer config Dict.empty) model grad

def uninterrupted (model : σ) (grad : V) : Trainer σ β V :=
  (freshRun config packed model grad).runTraining config learner

def stopped (epoch localStep : Nat) (model : σ) (grad : V) : Trainer σ β V :=
  (freshRun config packed model grad).stoppedAfter config learner epoch localStep

def resumed (checkpoints : List TrainingState) (model : σ) (grad : V) : Trainer σ β V :=
  (Trainer.init config packed (setupTrainer config (afterCalls config checkpoints)) model grad).runTraining
    config learner

end Runs

/-- The resumed run does what the uninterrupted one does after the stop. -/
structure ResumesEquivalently (whole stopped resumed : Trainer σ β V) : Prop where
  visited : resumed.ledger.record.visited =
    whole.ledger.record.visited.drop stopped.ledger.record.visited.length
  windows : resumed.ledger.record.windows =
    whole.ledger.record.windows.drop stopped.ledger.record.windows.length
  checkpoints : resumed.ledger.record.checkpoints =
    whole.ledger.record.checkpoints.drop stopped.ledger.record.checkpoints.length
  globalStep : resumed.globalStep = whole.globalStep

omit [AddCommGroup V] [Module ℚ V] in
theorem setupTrainer_empty (config : TrainerConfig) : setupTrainer config Dict.empty = ⟨0, 0, 0⟩ := by
  simp [setupTrainer, getPreviousEpoch]

omit [AddCommGroup V] [Module ℚ V] in
theorem init_fresh (config : TrainerConfig) (packed : Nat → List β) (position : Checkpoint.Position) (model : σ)
    (grad : V) (epoch : Nat) : (Trainer.init config packed position model grad).sampler.Fresh epoch := by
  intro batches cached
  simp only [Trainer.init] at cached ⊢
  split at cached
  · exact absurd cached (Option.some_ne_none _).symm
  · cases cached
    rfl

/-- Everything before the epoch of the stop. -/
theorem before_continued (config : TrainerConfig) (learner : Learner σ β V) (packed : Nat → List β)
    (model : σ) (grad : V) (epoch : Nat) :
    Continued config (freshRun config packed model grad) (List.range' 0 epoch)
      ((freshRun config packed model grad).trainEpochs config learner (List.range' 0 epoch)) := by
  apply trainEpochs_continued config learner List.nodup_range'
  · exact fun other _ => init_fresh config packed _ model grad other
  · intro other _
    simp [freshRun, Trainer.init, Trainer.skipSteps, setupTrainer_empty]

theorem savedStates_add (config : TrainerConfig) (packed : Nat → List β) (epoch globalStep first count : Nat) :
    savedStates config (planOf config packed epoch 0) globalStep (first + count) =
      savedStates config (planOf config packed epoch 0) globalStep first ++
        savedStates config (planOf config packed epoch first) (globalStep + first) count := by
  rw [savedStates, List.range_add, List.flatMap_append, List.flatMap_map]
  congr 1
  apply List.flatMap_congr
  intro k _
  have position : 1 + (first + k) + (planOf config packed epoch 0).skipSteps = 1 + k + first := by
    simp only [planOf]
    omega
  have step : globalStep + (first + k) + 1 = globalStep + first + k + 1 := by omega
  rw [savedAt, position, step]
  rfl

theorem micros_append (config : TrainerConfig) (packed : Nat → List β) (epoch globalStep : Nat)
    (front back : List β) :
    micros (planOf config packed epoch 0) globalStep (front ++ back) =
      micros (planOf config packed epoch 0) globalStep front ++
        micros (planOf config packed epoch front.length) (globalStep + front.length) back := by
  rw [micros, List.mapIdx_append]
  congr 1
  apply List.mapIdx_eq_mapIdx_iff.mpr
  intro k _
  simp only [planOf, Micro.mk.injEq, true_and, and_true]
  omega

theorem mem_savedStates {config : TrainerConfig} {plan : EpochPlan} {globalStep count : Nat}
    {saved : TrainingState} (member : saved ∈ savedStates config plan globalStep count) :
    saved.epoch = plan.epoch := by
  obtain ⟨k, -, now⟩ := List.mem_flatMap.mp member
  unfold savedAt at now
  split at now
  · rw [List.mem_singleton.mp now]
  · exact absurd now List.not_mem_nil

theorem epochsRecord_checkpoints (config : TrainerConfig) (packed : Nat → List β) {globalStep : Nat}
    {epochs : List Nat} {saved : TrainingState}
    (member : saved ∈ (epochsRecord config packed globalStep epochs).checkpoints) : saved.epoch ∈ epochs := by
  induction epochs generalizing globalStep with
  | nil => exact absurd member List.not_mem_nil
  | cons epoch epochs ih =>
    rcases List.mem_append.mp member with now | later
    · apply List.mem_cons.mpr
      left
      rcases List.mem_append.mp now with middle | last
      · exact mem_savedStates middle
      · rw [List.mem_singleton.mp last]
    · exact List.mem_cons_of_mem epoch (ih later)

/-- The last checkpoint of a stopped run is the one it stopped at. -/
theorem savedStates_last {config : TrainerConfig} {packed : Nat → List β} {epoch localStep : Nat}
    (checkpointed : Checkpointed config packed epoch localStep) (globalStep : Nat) :
    savedStates config (planOf config packed epoch 0) globalStep localStep =
      savedStates config (planOf config packed epoch 0) globalStep (localStep - 1) ++
        [⟨epoch, localStep, globalStep + localStep⟩] := by
  obtain ⟨-, positive, saves⟩ := checkpointed
  obtain ⟨before, rfl⟩ := Nat.exists_eq_add_of_lt positive
  rw [Nat.zero_add] at saves ⊢
  have now : savedAt config (planOf config packed epoch 0) globalStep before =
      [⟨epoch, before + 1, globalStep + (before + 1)⟩] := by
    have position : 1 + before + (planOf config packed epoch 0).skipSteps = before + 1 := Nat.add_comm 1 before
    rw [savedAt, position, if_pos saves]
    rfl
  rw [savedStates, List.range_succ, List.flatMap_append, List.flatMap_singleton, ← savedStates, now,
    Nat.add_sub_cancel]

/-- The state in which the epoch of the stop begins. -/
def beforeStop (config : TrainerConfig) (learner : Learner σ β V) (packed : Nat → List β) (epoch : Nat)
    (model : σ) (grad : V) : Trainer σ β V :=
  (freshRun config packed model grad).trainEpochs config learner (List.range' 0 epoch)

structure AtEpoch (packed : Nat → List β) (epoch : Nat) (s : Trainer σ β V) : Prop where
  earlier : ∀ saved ∈ s.ledger.checkpoints, saved.epoch < epoch
  packed_eq : s.sampler.packed = packed
  fresh : ∀ other, epoch ≤ other → s.sampler.Fresh other
  whole : ∀ other, s.skipSteps other = 0
  currentEpoch_eq : s.currentEpoch = 0

theorem beforeStop_atEpoch (config : TrainerConfig) (learner : Learner σ β V) (packed : Nat → List β)
    (epoch : Nat) (model : σ) (grad : V) :
    AtEpoch packed epoch (beforeStop config learner packed epoch model grad) := by
  have before := before_continued config learner packed model grad epoch
  have current : (freshRun config packed model grad).currentEpoch = 0 := by
    simp [freshRun, Trainer.init, setupTrainer_empty]
  constructor
  case earlier =>
    intro saved member
    have checkpoints := congrArg Record.checkpoints before.record_eq
    simp only [Record.append, freshRun, Trainer.init, Ledger.record, Ledger.empty, List.nil_append] at checkpoints
    have member : saved ∈ (epochsRecord config packed _ (List.range' 0 epoch)).checkpoints :=
      checkpoints ▸ member
    have bound := List.mem_range'_1.mp (epochsRecord_checkpoints config packed member)
    omega
  case packed_eq => exact before.packed_eq
  case fresh =>
    intro other later
    apply before.fresh other _ (init_fresh config packed _ model grad other)
    intro member
    have bound := List.mem_range'_1.mp member
    omega
  case whole =>
    intro other
    apply before.skip
    simp [freshRun, Trainer.init, Trainer.skipSteps, setupTrainer_empty]
  case currentEpoch_eq => exact before.currentEpoch_eq.trans current

omit [AddCommGroup V] [Module ℚ V] in
theorem AtEpoch.enterEpoch {packed : Nat → List β} {epoch : Nat} {s : Trainer σ β V}
    (at_epoch : AtEpoch packed epoch s) (config : TrainerConfig) :
    s.enterEpoch config epoch = (planOf config packed epoch 0, packed epoch, s.entered epoch) := by
  rw [Trainer.enterEpoch_eq config (at_epoch.fresh epoch le_rfl), Trainer.epochPlan, Trainer.epochBatches,
    at_epoch.whole, at_epoch.packed_eq, List.drop_zero, planOf]

omit [AddCommGroup V] [Module ℚ V] in
@[simp] theorem freshRun_currentEpoch (config : TrainerConfig) (packed : Nat → List β) (model : σ) (grad : V) :
    (freshRun config packed model grad).currentEpoch = 0 := by
  simp [freshRun, Trainer.init, setupTrainer_empty]

theorem closedWindows_all (config : TrainerConfig) (packed : Nat → List β) (epoch skip : Nat) :
    closedWindows (planOf config packed epoch skip) (packed epoch) =
      Windows.all (accumSteps config) (packed epoch) := by
  rw [closedWindows, Windows.all]
  congr 1
  by_cases divides : accumSteps config ∣ (packed epoch).length <;> simp [planOf, divides]

theorem closedWindows_part (config : TrainerConfig) {packed : Nat → List β} {epoch skip : Nat}
    {batches : List β} (part : batches.length < (packed epoch).length) :
    closedWindows (planOf config packed epoch skip) batches = Windows.full (accumSteps config) batches := by
  have inside : ¬ (batches.length = (planOf config packed epoch skip).numSteps ∧
      ¬ (planOf config packed epoch skip).accumSteps ∣ batches.length) := fun last => part.ne last.1
  rw [closedWindows, if_neg inside, List.append_nil, planOf]

section Stop

variable {config : TrainerConfig} {packed : Nat → List β} {epoch localStep : Nat}

/-- What an epoch visits behind the stop is what it visits when entered there. -/
theorem visited_split (checkpointed : Checkpointed config packed epoch localStep) (globalStep : Nat)
    (before later : Record β) :
    ((epochRecord config packed localStep (globalStep + localStep) epoch).append later).visited =
      (before.append ((epochRecord config packed 0 globalStep epoch).append later)).visited.drop
        (before.append (stepsRecord config (planOf config packed epoch 0) globalStep
          ((packed epoch).take localStep))).visited.length := by
  have cut := micros_append config packed epoch globalStep ((packed epoch).take localStep)
    ((packed epoch).drop localStep)
  rw [List.take_append_drop, List.length_take_of_le checkpointed.lt.le] at cut
  simp only [Record.append, epochRecord, stepsRecord, List.drop_zero, cut, List.append_nil]
  rw [List.append_assoc, ← List.append_assoc before.visited, List.drop_left]

theorem checkpoints_split (checkpointed : Checkpointed config packed epoch localStep) (globalStep : Nat)
    (before later : Record β) :
    ((epochRecord config packed localStep (globalStep + localStep) epoch).append later).checkpoints =
      (before.append ((epochRecord config packed 0 globalStep epoch).append later)).checkpoints.drop
        (before.append (stepsRecord config (planOf config packed epoch 0) globalStep
          ((packed epoch).take localStep))).checkpoints.length := by
  have within := checkpointed.lt.le
  have cut := savedStates_add config packed epoch globalStep localStep ((packed epoch).length - localStep)
  rw [Nat.add_sub_cancel' within] at cut
  have last : globalStep + localStep + ((packed epoch).length - localStep) =
      globalStep + (packed epoch).length := by omega
  simp only [Record.append, epochRecord, stepsRecord, List.drop_zero, cut, List.length_take_of_le within,
    List.length_drop, Nat.sub_zero, last]
  simp

theorem windows_split_iff (checkpointed : Checkpointed config packed epoch localStep) (globalStep : Nat)
    (before later : Record β) :
    ((epochRecord config packed localStep (globalStep + localStep) epoch).append later).windows =
      (before.append ((epochRecord config packed 0 globalStep epoch).append later)).windows.drop
        (before.append (stepsRecord config (planOf config packed epoch 0) globalStep
          ((packed epoch).take localStep))).windows.length ↔
      accumSteps config ∣ localStep ∧ accumSteps config ∣ (packed epoch).length := by
  have within := checkpointed.lt.le
  have front : ((packed epoch).take localStep).length < (packed epoch).length := by
    rw [List.length_take_of_le within]
    exact checkpointed.lt
  have back : ((packed epoch).drop localStep).length < (packed epoch).length := by
    have positive := checkpointed.2.1
    rw [List.length_drop]
    omega
  have reach : localStep / accumSteps config ≤
      (Windows.all (accumSteps config) (packed epoch)).length := by
    rw [Windows.all, List.length_append, Windows.length_full]
    exact (Nat.div_le_div_right within).trans (Nat.le_add_right _ _)
  simp only [Record.append, epochRecord, stepsRecord, List.drop_zero, closedWindows_all,
    closedWindows_part config front, closedWindows_part config back, List.append_nil]
  rw [List.length_append, List.drop_length_add_append, Windows.length_full, List.length_take_of_le within,
    List.drop_append_of_le_length reach, List.append_cancel_right_eq, Windows.full_drop_eq_iff within]

theorem stopped_eq (learner : Learner σ β V) (model : σ) (grad : V) :
    stopped config learner packed epoch localStep model grad =
      ((beforeStop config learner packed epoch model grad).entered epoch).trainSteps config learner
        (planOf config packed epoch 0) 1 ((packed epoch).take localStep) := by
  have entered := (beforeStop_atEpoch config learner packed epoch model grad).enterEpoch config
  rw [beforeStop] at entered
  rw [stopped, Trainer.stoppedAfter, freshRun_currentEpoch, Nat.sub_zero]
  simp only [entered]
  rfl

theorem stopped_record (config : TrainerConfig) (learner : Learner σ β V) (within : localStep ≤ (packed epoch).length) (model : σ)
    (grad : V) : (stopped config learner packed epoch localStep model grad).ledger.record =
      (beforeStop config learner packed epoch model grad).ledger.record.append
        (stepsRecord config (planOf config packed epoch 0)
          (beforeStop config learner packed epoch model grad).globalStep ((packed epoch).take localStep)) := by
  have room : ((packed epoch).take localStep).length ≤ (planOf config packed epoch 0).numSteps :=
    (List.length_take_le _ _).trans within
  obtain ⟨visited, trained⟩ := Trained.steps config learner (accumSteps_pos config)
    ((beforeStop config learner packed epoch model grad).entered epoch) _ room
  rw [stopped_eq, trained.record]
  rfl

def epochsAfter (config : TrainerConfig) (epoch : Nat) : List Nat :=
  List.range' (epoch + 1) (config.numEpochs - (epoch + 1))

/-- A run that has reached an epoch, entered behind `skip` of its batches, and goes on to the
last one. -/
theorem run_from (config : TrainerConfig) (learner : Learner σ β V) {s : Trainer σ β V} {skip : Nat}
    (packed_eq : s.sampler.packed = packed) (fresh : ∀ other, epoch ≤ other → s.sampler.Fresh other)
    (skips : s.skipSteps epoch = skip) (whole : ∀ other, other ≠ epoch → s.skipSteps other = 0) :
    let t := s.trainEpochs config learner (epoch :: epochsAfter config epoch)
    t.ledger.record = s.ledger.record.append ((epochRecord config packed skip s.globalStep epoch).append
      (epochsRecord config packed (s.globalStep + ((packed epoch).length - skip)) (epochsAfter config epoch))) ∧
    t.globalStep = s.globalStep + ((packed epoch).length - skip) +
      ((epochsAfter config epoch).map fun other => (packed other).length).sum := by
  obtain ⟨record, step, -, packs, skipped, freshen⟩ := trainEpoch_record config learner (fresh epoch le_rfl)
  have after : ∀ other ∈ epochsAfter config epoch, other ≠ epoch := by
    intro other member
    have bound := List.mem_range'_1.mp member
    omega
  have distinct : (epochsAfter config epoch).Nodup := List.nodup_range'
  have later := trainEpochs_continued config learner distinct
      (fun other member => freshen other (after other member))
      (fun other member => skipped other (.inr (whole other (after other member))))
  rw [packed_eq, skips] at record step
  rw [packed_eq] at packs
  constructor
  · rw [Trainer.trainEpochs, List.foldl_cons, ← Trainer.trainEpochs, later.record_eq, record, step, packs,
      Record.append_assoc]
  · rw [Trainer.trainEpochs, List.foldl_cons, ← Trainer.trainEpochs, later.globalStep_eq, step, packs]

theorem uninterrupted_eq (learner : Learner σ β V) (within : epoch < config.numEpochs) (model : σ) (grad : V) :
    uninterrupted config learner packed model grad =
      (beforeStop config learner packed epoch model grad).trainEpochs config learner
        (epoch :: epochsAfter config epoch) := by
  have epochs : List.range' 0 config.numEpochs = List.range' 0 epoch ++ epoch :: epochsAfter config epoch := by
    have size : config.numEpochs = epoch + (1 + (config.numEpochs - (epoch + 1))) := by omega
    rw [size, ← List.range'_append_1, Nat.zero_add, ← List.range'_append_1]
    rfl
  rw [uninterrupted, Trainer.runTraining, freshRun_currentEpoch, Nat.sub_zero, epochs, Trainer.trainEpochs,
    List.foldl_append]
  rfl

/-- The position a stopped run is resumed at. -/
theorem stopped_position (resumes : config.resumeFromCheckpoint = true)
    (checkpointed : Checkpointed config packed epoch localStep) (learner : Learner σ β V) (model : σ) (grad : V) :
    setupTrainer config
        (afterCalls config (stopped config learner packed epoch localStep model grad).ledger.checkpoints) =
      ⟨epoch, localStep, (beforeStop config learner packed epoch model grad).globalStep + localStep⟩ := by
  have at_epoch := beforeStop_atEpoch config learner packed epoch model grad
  have checkpoints := congrArg Record.checkpoints
    (stopped_record config learner checkpointed.lt.le model grad)
  simp only [Ledger.record, Record.append, stepsRecord, List.length_take_of_le checkpointed.lt.le,
    savedStates_last checkpointed, ← List.append_assoc] at checkpoints
  rw [checkpoints, setupTrainer_afterCalls resumes checkpointed.savesEpoch]
  · exact if_pos checkpointed.2.1
  · intro call member
    rcases List.mem_append.mp member with earlier | middle
    · exact (at_epoch.earlier call earlier).le
    · exact (mem_savedStates middle).le

/-- The resumed run, entered behind the batches of the stopped one. -/
theorem resumed_spec (resumes : config.resumeFromCheckpoint = true)
    (checkpointed : Checkpointed config packed epoch localStep) (learner : Learner σ β V)
    (model restored : σ) (grad buffer : V) :
    let start := (beforeStop config learner packed epoch model grad).globalStep
    let t := resumed config learner packed
      (stopped config learner packed epoch localStep model grad).ledger.checkpoints restored buffer
    t.ledger.record = (epochRecord config packed localStep (start + localStep) epoch).append
      (epochsRecord config packed (start + (packed epoch).length) (epochsAfter config epoch)) ∧
    t.globalStep = start + (packed epoch).length +
      ((epochsAfter config epoch).map fun other => (packed other).length).sum := by
  intro start t
  have within := checkpointed.lt.le
  have rest : start + localStep + ((packed epoch).length - localStep) = start + (packed epoch).length := by
    omega
  have epochs : List.range' epoch (config.numEpochs - epoch) = epoch :: epochsAfter config epoch := by
    have last := checkpointed.1
    have size : config.numEpochs - epoch = (config.numEpochs - (epoch + 1)) + 1 := by omega
    rw [size, List.range'_succ, epochsAfter]
  have skips : (Trainer.init config packed ⟨epoch, localStep, start + localStep⟩ restored buffer).skipSteps
      epoch = localStep := by simp [Trainer.init, Trainer.skipSteps]
  have whole : ∀ other, other ≠ epoch → (Trainer.init config packed
      ⟨epoch, localStep, start + localStep⟩ restored buffer).skipSteps other = 0 := by
    intro other different
    simp [Trainer.init, Trainer.skipSteps, different]
  obtain ⟨record, step⟩ := run_from config learner rfl
    (fun other _ => init_fresh config packed _ restored buffer other) skips whole
  have init : t = (Trainer.init config packed ⟨epoch, localStep, start + localStep⟩ restored
      buffer).trainEpochs config learner (epoch :: epochsAfter config epoch) := by
    simp only [t, resumed, stopped_position resumes checkpointed learner model grad, Trainer.runTraining, ← epochs]
    rfl
  rw [init, record, step, ← rest]
  exact ⟨Record.empty_append _, rfl⟩

section Compare

variable (resumes : config.resumeFromCheckpoint = true)
  (checkpointed : Checkpointed config packed epoch localStep) (learner : Learner σ β V)
  (model restored : σ) (grad buffer : V)

include resumes checkpointed

/-- The batches, the saves and the step count do not notice the interruption. -/
theorem resumed_positions :
    let whole := uninterrupted config learner packed model grad
    let stop := stopped config learner packed epoch localStep model grad
    let again := resumed config learner packed stop.ledger.checkpoints restored buffer
    again.ledger.record.visited = whole.ledger.record.visited.drop stop.ledger.record.visited.length ∧
      again.ledger.record.checkpoints =
        whole.ledger.record.checkpoints.drop stop.ledger.record.checkpoints.length ∧
      again.globalStep = whole.globalStep := by
  have at_epoch := beforeStop_atEpoch config learner packed epoch model grad
  obtain ⟨record, step⟩ := run_from config learner at_epoch.packed_eq at_epoch.fresh
    (at_epoch.whole epoch) (fun other _ => at_epoch.whole other)
  obtain ⟨again, restep⟩ := resumed_spec resumes checkpointed learner model restored grad buffer
  have stop := stopped_record config learner checkpointed.lt.le model grad
  rw [← uninterrupted_eq learner checkpointed.1, Nat.sub_zero] at record step
  intro whole stopped resumed
  refine ⟨?_, ?_, restep.trans step.symm⟩
  · rw [record, again, stop, visited_split checkpointed]
  · rw [record, again, stop, checkpoints_split checkpointed]

/-- The optimizer steps notice it unless every window ends where it should. -/
theorem resumed_windows_iff :
    let whole := uninterrupted config learner packed model grad
    let stop := stopped config learner packed epoch localStep model grad
    let again := resumed config learner packed stop.ledger.checkpoints restored buffer
    again.ledger.record.windows = whole.ledger.record.windows.drop stop.ledger.record.windows.length ↔
      accumSteps config ∣ localStep ∧ accumSteps config ∣ (packed epoch).length := by
  have at_epoch := beforeStop_atEpoch config learner packed epoch model grad
  obtain ⟨record, -⟩ := run_from config learner at_epoch.packed_eq at_epoch.fresh
    (at_epoch.whole epoch) (fun other _ => at_epoch.whole other)
  obtain ⟨again, -⟩ := resumed_spec resumes checkpointed learner model restored grad buffer
  have stop := stopped_record config learner checkpointed.lt.le model grad
  rw [← uninterrupted_eq learner checkpointed.1, Nat.sub_zero] at record
  intro whole stopped resumed
  rw [record, again, stop]
  exact windows_split_iff checkpointed _ _ _

/-- Resumed from a mid-epoch checkpoint, training visits the same batches and saves at the
same positions as without the interruption; its optimizer steps are the same exactly when
the accumulation factor divides both the checkpoint's step and the epoch's length. -/
theorem resumesEquivalently_iff :
    ResumesEquivalently (uninterrupted config learner packed model grad)
        (stopped config learner packed epoch localStep model grad)
        (resumed config learner packed
          (stopped config learner packed epoch localStep model grad).ledger.checkpoints restored buffer) ↔
      accumSteps config ∣ localStep ∧ accumSteps config ∣ (packed epoch).length := by
  have windows := resumed_windows_iff resumes checkpointed learner model restored grad buffer
  constructor
  · intro same
    exact windows.mp same.windows
  · intro fills
    obtain ⟨visited, checkpoints, step⟩ :=
      resumed_positions resumes checkpointed learner model restored grad buffer
    exact ⟨visited, windows.mpr fills, checkpoints, step⟩

end Compare

end Stop

/-- Saves every second of eight steps. -/
def quarterSaves (gradAccumSteps : Int) : TrainerConfig := ⟨2, true, .linear, 1 / 4, false, gradAccumSteps⟩

def eightBatches : Nat → List ℚ := fun _ => [1, 2, 3, 4, 5, 6, 7, 8]

theorem quarterSaves_checkpointed (gradAccumSteps : Int) :
    Checkpointed (quarterSaves gradAccumSteps) eightBatches 0 2 := by
  have interval : stepInterval (quarterSaves gradAccumSteps) 8 = some 2 := by
    have quarter : ((8 : Nat) : ℚ) * (1 / 4) = 2 := by norm_num
    have rounded : roundHalfEven 2 = 2 := by norm_num [roundHalfEven]
    have below : (1 / 4 : ℚ) < 1 := by norm_num
    simp only [stepInterval, quarterSaves, if_pos below, quarter, rounded]
    rfl
  have saves : savesStep (quarterSaves gradAccumSteps)
      (planOf (quarterSaves gradAccumSteps) eightBatches 0 0) 2 = true := by
    have plan : (planOf (quarterSaves gradAccumSteps) eightBatches 0 0).stepInterval = some 2 := interval
    rw [savesStep, plan]
    rfl
  exact ⟨Nat.zero_lt_two, Nat.zero_lt_two, saves⟩

theorem resumesEquivalently_pairs : ResumesEquivalently
    (uninterrupted (quarterSaves 2) numbered eightBatches () 0)
    (stopped (quarterSaves 2) numbered eightBatches 0 2 () 0)
    (resumed (quarterSaves 2) numbered eightBatches
      (stopped (quarterSaves 2) numbered eightBatches 0 2 () 0).ledger.checkpoints () 0) :=
  (resumesEquivalently_iff rfl (quarterSaves_checkpointed 2) numbered () () 0 0).mpr (by decide)

/-- Accumulating four, the checkpoint after step 2 lies inside the first window. -/
theorem resumesEquivalently_insideWindow : ¬ ResumesEquivalently
    (uninterrupted (quarterSaves 4) numbered eightBatches () 0)
    (stopped (quarterSaves 4) numbered eightBatches 0 2 () 0)
    (resumed (quarterSaves 4) numbered eightBatches
      (stopped (quarterSaves 4) numbered eightBatches 0 2 () 0).ledger.checkpoints () 0) := by
  intro same
  have fills := (resumed_windows_iff rfl (quarterSaves_checkpointed 4) numbered () () 0 0).mp same.windows
  exact absurd fills.1 (by decide)

end DreamAifd.Training
