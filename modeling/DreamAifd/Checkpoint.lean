import DreamAifd.Dict

/-! Checkpoints of the trainer: the files of an epoch directory, the writes of a save in
their order, and what a resumed trainer reads back. What a save writes is named by the
training state it was made at. -/
namespace DreamAifd.Checkpoint

inductive SchedulerType where
  | linear | cosine | none
  deriving DecidableEq, Repr

structure TrainerConfig where
  numEpochs : Nat
  resumeFromCheckpoint : Bool
  schedulerType : SchedulerType
  checkpointFreq : ℚ
  saveBest : Bool
  gradAccumSteps : Int
  deriving DecidableEq

structure TrainingState where
  epoch : Nat
  localStep : Nat
  globalStep : Nat
  deriving DecidableEq, Repr

inductive CheckpointFile where
  | model | optimizer | scheduler | trainingState
  deriving DecidableEq, Repr

/-- A file cut in the middle of a write cannot be decoded. -/
inductive Content where
  | absent
  | truncated
  | complete (saved : TrainingState)
  deriving DecidableEq, Repr

def Content.read : Content → Option TrainingState
  | .absent => none
  | .truncated => none
  | .complete saved => some saved

abbrev EpochDir := CheckpointFile → Content

def emptyDir : EpochDir := fun _ => .absent

abbrev Root := Dict Nat EpochDir

def getPreviousEpoch (root : Root) : Option Nat :=
  if nonempty : root.keys.Nonempty then some (root.keys.max' nonempty) else none

/-- Where training goes on: `current_epoch`, `_resume_local_step`, `global_step`. -/
structure Position where
  currentEpoch : Nat
  localStep : Nat
  globalStep : Nat
  deriving DecidableEq, Repr

/-- The resuming branch of `setup_trainer`; `state` is empty when the file is absent or
cannot be decoded. -/
def resumePosition (previousEpoch : Nat) (state : Option TrainingState) : Position :=
  match state with
  | some state =>
    if state.epoch = previousEpoch ∧ 0 < state.localStep then
      ⟨state.epoch, state.localStep, state.globalStep⟩
    else ⟨previousEpoch + 1, 0, state.globalStep⟩
  | none => ⟨previousEpoch + 1, 0, 0⟩

def setupTrainer (config : TrainerConfig) (root : Root) : Position :=
  match getPreviousEpoch root with
  | some previousEpoch =>
    if config.resumeFromCheckpoint then
      resumePosition previousEpoch ((root.get? previousEpoch).getD emptyDir .trainingState).read
    else ⟨0, 0, 0⟩
  | none => ⟨0, 0, 0⟩

/-- An absent scheduler file is skipped, a truncated one cannot be loaded. -/
def loadSchedulerStateDict (config : TrainerConfig) (dir : EpochDir) : Option Unit :=
  if config.schedulerType = .none then some ()
  else match dir .scheduler with
    | .absent => some ()
    | .truncated => none
    | .complete _ => some ()

/-- A constructed trainer; `weights` is empty when the model keeps its initial weights. -/
structure Started where
  position : Position
  weights : Option TrainingState
  deriving DecidableEq, Repr

/-- `Trainer.__init__`: `none` when loading a file raises. -/
def start (config : TrainerConfig) (root : Root) : Option Started :=
  match getPreviousEpoch root with
  | some previousEpoch =>
    if config.resumeFromCheckpoint then do
      let dir := (root.get? previousEpoch).getD emptyDir
      let weights ← (dir .model).read
      let _ ← (dir .optimizer).read
      let _ ← loadSchedulerStateDict config dir
      return ⟨setupTrainer config root, some weights⟩
    else some ⟨setupTrainer config root, none⟩
  | none => some ⟨setupTrainer config root, none⟩

inductive Write where
  | makeDir
  | truncate (file : CheckpointFile)
  | complete (file : CheckpointFile)
  deriving DecidableEq, Repr

def Write.apply (saved : TrainingState) (dir : EpochDir) : Write → EpochDir
  | .makeDir => dir
  | .truncate file => Function.update dir file .truncated
  | .complete file => Function.update dir file (.complete saved)

/-- Every file is opened for writing, which empties it, and then filled. -/
def saveCheckpoint (config : TrainerConfig) : List Write :=
  [.makeDir, .truncate .model, .complete .model, .truncate .optimizer, .complete .optimizer] ++
    (if config.schedulerType = .none then [] else [.truncate .scheduler, .complete .scheduler]) ++
    [.truncate .trainingState, .complete .trainingState]

/-- Whether `maybe_save_checkpoint` goes on to save an epoch. -/
def savesEpoch (config : TrainerConfig) (epoch : Nat) : Bool :=
  !(config.saveBest || (1 ≤ config.checkpointFreq ∧ epoch ≠ 0 ∧
    ((epoch + 1 : ℚ) / config.checkpointFreq).den ≠ 1 : Bool))

def maybeSaveCheckpoint (config : TrainerConfig) (saved : TrainingState) : List Write :=
  if savesEpoch config saved.epoch then saveCheckpoint config else []

def perform (saved : TrainingState) (root : Root) (write : Write) : Root :=
  root.set saved.epoch (write.apply saved ((root.get? saved.epoch).getD emptyDir))

def performAll (saved : TrainingState) (root : Root) (writes : List Write) : Root :=
  writes.foldl (perform saved) root

/-- The checkpoint directory after a history of calls that all returned. -/
def afterCalls (config : TrainerConfig) (history : List TrainingState) : Root :=
  history.foldl (fun root saved => performAll saved root (maybeSaveCheckpoint config saved)) Dict.empty

def writesBefore (config : TrainerConfig) (last : TrainingState) (count : Nat) : List Write :=
  (maybeSaveCheckpoint config last).take count

/-- The directory when the call after a history stops after `count` of its writes. -/
def crashed (config : TrainerConfig) (history : List TrainingState) (last : TrainingState)
    (count : Nat) : Root :=
  performAll last (afterCalls config history) (writesBefore config last count)

/-- The position a save was made at; `local_step` 0 stands for the end of the epoch. -/
def TrainingState.position (saved : TrainingState) : Position :=
  if 0 < saved.localStep then ⟨saved.epoch, saved.localStep, saved.globalStep⟩
  else ⟨saved.epoch + 1, 0, saved.globalStep⟩

/-- A trainer that starts goes on where the weights it loaded were saved. -/
def Consistent (config : TrainerConfig) (root : Root) : Prop :=
  ∀ started, start config root = some started →
    started.position = started.weights.elim ⟨0, 0, 0⟩ TrainingState.position

theorem getPreviousEpoch_eq {root : Root} {epoch : Nat} (member : epoch ∈ root.keys)
    (largest : ∀ other ∈ root.keys, other ≤ epoch) : getPreviousEpoch root = some epoch := by
  have nonempty : root.keys.Nonempty := ⟨epoch, member⟩
  have same : root.keys.max' nonempty = epoch :=
    le_antisymm (root.keys.max'_le nonempty epoch largest) (root.keys.le_max' epoch member)
  rw [getPreviousEpoch, dif_pos nonempty, same]

theorem performAll_eq (saved : TrainingState) (root : Root) {writes : List Write}
    (some : writes ≠ []) : performAll saved root writes =
      root.set saved.epoch (writes.foldl (Write.apply saved) ((root.get? saved.epoch).getD emptyDir)) := by
  induction writes using List.reverseRecOn with
  | nil => exact absurd rfl some
  | append_singleton writes write ih =>
    have step : performAll saved root (writes ++ [write]) =
        perform saved (performAll saved root writes) write := by simp [performAll]
    rw [step, List.foldl_append]
    cases writes with
    | nil => rfl
    | cons first rest =>
      rw [ih (List.cons_ne_nil _ _)]
      ext epoch : 1
      simp only [perform, Dict.get?_set, if_true, Option.getD_some, List.foldl_cons, List.foldl_nil]
      split <;> rfl

/-- A later write to a file never empties what an earlier one filled. -/
def Ordered (writes : List Write) : Prop :=
  writes.Pairwise fun first later => ∀ file, later = .truncate file → first ≠ .complete file

theorem saveCheckpoint_ordered (config : TrainerConfig) : Ordered (saveCheckpoint config) := by
  unfold Ordered saveCheckpoint
  split <;> simp

/-- What a file holds is told by the writes done to it. -/
theorem foldl_apply {saved : TrainingState} {dir : EpochDir} {writes : List Write}
    (ordered : Ordered writes) (file : CheckpointFile) :
    writes.foldl (Write.apply saved) dir file =
      if .complete file ∈ writes then .complete saved
      else if .truncate file ∈ writes then .truncated else dir file := by
  induction writes using List.reverseRecOn with
  | nil => simp
  | append_singleton writes write ih =>
    obtain ⟨before, -, after⟩ := List.pairwise_append.mp ordered
    rw [List.foldl_append, List.foldl_cons, List.foldl_nil]
    cases write with
    | makeDir => simpa [Write.apply] using ih before
    | truncate other =>
      by_cases same : file = other
      · subst same
        have unfilled : .complete file ∉ writes := fun filled =>
          after _ filled _ (List.mem_singleton_self _) file rfl rfl
        simp [Write.apply, unfilled]
      · simpa [Write.apply, same] using ih before
    | complete other =>
      by_cases same : file = other
      · simp [Write.apply, same]
      · simpa [Write.apply, same] using ih before

theorem getPreviousEpoch_mem {root : Root} {epoch : Nat} (previous : getPreviousEpoch root = some epoch) :
    epoch ∈ root.keys := by
  unfold getPreviousEpoch at previous
  split at previous
  next nonempty =>
    rw [← Option.some.inj previous]
    exact root.keys.max'_mem nonempty
  next => exact absurd previous (Option.some_ne_none epoch).symm

def savedDir (config : TrainerConfig) (saved : TrainingState) : EpochDir := fun file =>
  if file = .scheduler ∧ config.schedulerType = .none then .absent else .complete saved

def previousSave (config : TrainerConfig) (history : List TrainingState) (epoch : Nat) :
    Option TrainingState :=
  if savesEpoch config epoch then history.reverse.find? fun call => call.epoch = epoch else none

theorem previousSave_concat (config : TrainerConfig) (history : List TrainingState)
    (saved : TrainingState) (epoch : Nat) : previousSave config (history ++ [saved]) epoch =
      if savesEpoch config epoch ∧ saved.epoch = epoch then some saved
      else previousSave config history epoch := by
  by_cases gate : savesEpoch config epoch <;> by_cases same : saved.epoch = epoch <;>
    simp [previousSave, gate, same]

theorem previousSave_epoch {config : TrainerConfig} {history : List TrainingState} {epoch : Nat}
    {saved : TrainingState} (found : previousSave config history epoch = some saved) :
    saved.epoch = epoch ∧ saved ∈ history := by
  unfold previousSave at found
  split at found
  next =>
    have epoch := List.find?_some found
    exact ⟨by simpa using epoch, List.mem_reverse.mp (List.mem_of_find?_eq_some found)⟩
  next => exact absurd found (Option.some_ne_none saved).symm

theorem foldl_saveCheckpoint {config : TrainerConfig} {saved : TrainingState} {dir : EpochDir}
    (scheduler : config.schedulerType = .none → dir .scheduler = .absent) :
    (saveCheckpoint config).foldl (Write.apply saved) dir = savedDir config saved := by
  funext file
  rw [foldl_apply (saveCheckpoint_ordered config)]
  by_cases without : config.schedulerType = .none
  · cases file <;> simp [saveCheckpoint, savedDir, without, scheduler]
  · cases file <;> simp [saveCheckpoint, savedDir, without]

/-- After calls that returned, every directory holds its last save. -/
theorem afterCalls_get? (config : TrainerConfig) (history : List TrainingState) (epoch : Nat) :
    (afterCalls config history).get? epoch = (previousSave config history epoch).map (savedDir config) := by
  induction history using List.reverseRecOn with
  | nil => simp [afterCalls, previousSave]
  | append_singleton history saved ih =>
    have step : afterCalls config (history ++ [saved]) =
        performAll saved (afterCalls config history) (maybeSaveCheckpoint config saved) := by
      simp [afterCalls]
    rw [step, previousSave_concat, maybeSaveCheckpoint]
    by_cases gate : savesEpoch config saved.epoch
    · rw [if_pos gate, performAll_eq _ _ (by simp [saveCheckpoint]), Dict.get?_set]
      by_cases same : epoch = saved.epoch
      · subst same
        rw [if_pos rfl, if_pos ⟨gate, rfl⟩, ih, foldl_saveCheckpoint]
        · rfl
        · intro without
          cases previousSave config history saved.epoch <;> simp [emptyDir, savedDir, without]
      · rw [if_neg same, if_neg fun both => same both.2.symm, ih]
    · rw [if_neg gate]
      split
      next both => exact absurd (both.2 ▸ both.1) gate
      next => exact ih

theorem resumePosition_some (state : TrainingState) :
    resumePosition state.epoch (some state) = state.position := by
  simp [resumePosition, TrainingState.position]

/-- What consistency asks of the directory that is resumed from. -/
theorem consistent_iff {config : TrainerConfig} (resumes : config.resumeFromCheckpoint = true)
    {root : Root} {epoch : Nat} {dir : EpochDir} (previous : getPreviousEpoch root = some epoch)
    (present : root.get? epoch = some dir) :
    Consistent config root ↔ ∀ weights, (dir .model).read = some weights →
      (dir .optimizer).read ≠ none → loadSchedulerStateDict config dir ≠ none →
        resumePosition epoch (dir .trainingState).read = weights.position := by
  unfold Consistent
  rw [start, setupTrainer, previous]
  simp only [resumes, if_true, present, Option.getD_some]
  cases (dir .model).read <;> cases (dir .optimizer).read <;>
    cases loadSchedulerStateDict config dir <;> simp

theorem consistent_of_savedDir {config : TrainerConfig} (resumes : config.resumeFromCheckpoint = true)
    {root : Root} {saved : TrainingState} (previous : getPreviousEpoch root = some saved.epoch)
    (present : root.get? saved.epoch = some (savedDir config saved)) : Consistent config root := by
  apply (consistent_iff resumes previous present).mpr
  intro weights model _ _
  obtain rfl : saved = weights := by simpa [savedDir, Content.read] using model
  have state : (savedDir config saved .trainingState).read = some saved := by simp [savedDir, Content.read]
  rw [state, resumePosition_some]

theorem consistent_afterCalls {config : TrainerConfig} (resumes : config.resumeFromCheckpoint = true)
    (history : List TrainingState) : Consistent config (afterCalls config history) := by
  cases previous : getPreviousEpoch (afterCalls config history) with
  | none => simp [Consistent, start, setupTrainer, previous]
  | some epoch =>
    obtain ⟨dir, present⟩ := Dict.mem_keys.mp (getPreviousEpoch_mem previous)
    have saves := present
    rw [afterCalls_get?] at saves
    obtain ⟨saved, found, rfl⟩ := Option.map_eq_some_iff.mp saves
    obtain ⟨rfl, -⟩ := previousSave_epoch found
    exact consistent_of_savedDir resumes previous present

/-- After a mid-epoch save that returned, training resumes at its step. -/
theorem setupTrainer_afterCalls {config : TrainerConfig} (resumes : config.resumeFromCheckpoint = true)
    {history : List TrainingState} {last : TrainingState} (saves : savesEpoch config last.epoch = true)
    (forward : ∀ call ∈ history, call.epoch ≤ last.epoch) :
    setupTrainer config (afterCalls config (history ++ [last])) = last.position := by
  have present : (afterCalls config (history ++ [last])).get? last.epoch = some (savedDir config last) := by
    rw [afterCalls_get?, previousSave_concat, if_pos ⟨saves, rfl⟩]
    rfl
  have previous : getPreviousEpoch (afterCalls config (history ++ [last])) = some last.epoch := by
    apply getPreviousEpoch_eq (Dict.mem_keys.mpr ⟨_, present⟩)
    intro other member
    obtain ⟨dir, stored⟩ := Dict.mem_keys.mp member
    rw [afterCalls_get?] at stored
    obtain ⟨saved, found, -⟩ := Option.map_eq_some_iff.mp stored
    obtain ⟨rfl, call⟩ := previousSave_epoch found
    rcases List.mem_append.mp call with earlier | now
    · exact forward saved earlier
    · rw [List.mem_singleton.mp now]
  have state : (savedDir config last .trainingState).read = some last := by simp [savedDir, Content.read]
  rw [setupTrainer, previous]
  simp only [resumes, if_true, present, Option.getD_some, state, resumePosition_some]

/-- What the epoch directory holds when the last call stops after some writes. -/
theorem crashed_get? {config : TrainerConfig} {history : List TrainingState} {last : TrainingState}
    {count : Nat} (begun : writesBefore config last count ≠ []) :
    (crashed config history last count).get? last.epoch = some (fun file =>
      if .complete file ∈ writesBefore config last count then .complete last
      else if .truncate file ∈ writesBefore config last count then .truncated
      else ((previousSave config history last.epoch).elim emptyDir (savedDir config)) file) := by
  have ordered : Ordered (writesBefore config last count) := by
    apply List.Pairwise.sublist (List.take_sublist _ _)
    unfold maybeSaveCheckpoint
    split
    · exact saveCheckpoint_ordered config
    · exact List.Pairwise.nil
  have earlier : ((previousSave config history last.epoch).map (savedDir config)).getD emptyDir =
      (previousSave config history last.epoch).elim emptyDir (savedDir config) := by
    cases previousSave config history last.epoch <;> rfl
  rw [crashed, performAll_eq _ _ begun, Dict.get?_set_self, afterCalls_get?, earlier]
  exact congrArg some (funext fun file => foldl_apply ordered file)

theorem crashed_previousEpoch {config : TrainerConfig} {history : List TrainingState} {last : TrainingState}
    (forward : ∀ call ∈ history, call.epoch ≤ last.epoch) {count : Nat}
    (begun : writesBefore config last count ≠ []) :
    getPreviousEpoch (crashed config history last count) = some last.epoch := by
  apply getPreviousEpoch_eq (Dict.mem_keys.mpr ⟨_, crashed_get? begun⟩)
  intro other member
  by_cases same : other = last.epoch
  · exact le_of_eq same
  · obtain ⟨dir, present⟩ := Dict.mem_keys.mp member
    rw [crashed, performAll_eq _ _ begun, Dict.get?_set_ne _ _ same, afterCalls_get?] at present
    obtain ⟨saved, found, -⟩ := Option.map_eq_some_iff.mp present
    obtain ⟨rfl, call⟩ := previousSave_epoch found
    exact forward saved call

/-- The model file is written before all others. -/
theorem model_first {config : TrainerConfig} {last : TrainingState} {count : Nat}
    (pending : .complete .model ∉ writesBefore config last count) (file : CheckpointFile)
    (other : file ≠ .model) : .complete file ∉ writesBefore config last count ∧
      .truncate file ∉ writesBefore config last count := by
  unfold writesBefore maybeSaveCheckpoint saveCheckpoint at *
  split at pending
  next gate =>
    rw [if_pos gate]
    match count with
    | 0 | 1 | 2 => simp [other]
    | n + 3 => simp at pending
  next gate => simp [gate]

/-- Loading raises: the optimizer file is missing or cut, or the scheduler file is cut. -/
def LoadRaises (earlier : Option TrainingState) (writes : List Write) : Prop :=
  .complete .optimizer ∉ writes ∧ (.truncate .optimizer ∈ writes ∨ earlier = none) ∨
    .truncate .scheduler ∈ writes ∧ .complete .scheduler ∉ writes

/-- The state file on disk tells the position of the last call. -/
def PositionKept (earlier : Option TrainingState) (last : TrainingState) (writes : List Write) : Prop :=
  .complete .trainingState ∈ writes ∨
    (.truncate .trainingState ∉ writes ∧ ∃ save, earlier = some save ∧ save.position = last.position) ∨
    ((.truncate .trainingState ∈ writes ∨ earlier = none) ∧ last.localStep = 0 ∧ last.globalStep = 0)

theorem read_file {config : TrainerConfig} {earlier : Option TrainingState} {last : TrainingState}
    {writes : List Write} {file : CheckpointFile} (stored : file ≠ .scheduler) :
    (if .complete file ∈ writes then Content.complete last
      else if .truncate file ∈ writes then .truncated
      else (earlier.elim emptyDir (savedDir config)) file).read =
    if .complete file ∈ writes then some last
    else if .truncate file ∈ writes then none else earlier := by
  split
  · rfl
  · split
    · rfl
    · cases earlier <;> simp [emptyDir, savedDir, Content.read, stored]

theorem end_position_iff {state : TrainingState} :
    resumePosition state.epoch none = state.position ↔ state.localStep = 0 ∧ state.globalStep = 0 := by
  rw [resumePosition, TrainingState.position]
  split
  next middle =>
    simp only [Position.mk.injEq]
    omega
  next =>
    simp only [Position.mk.injEq, true_and]
    omega

theorem positionKept_iff {config : TrainerConfig} {history : List TrainingState} {last : TrainingState}
    {writes : List Write} :
    resumePosition last.epoch (if .complete .trainingState ∈ writes then some last
      else if .truncate .trainingState ∈ writes then none
      else previousSave config history last.epoch) = last.position ↔
    PositionKept (previousSave config history last.epoch) last writes := by
  unfold PositionKept
  by_cases filled : .complete .trainingState ∈ writes
  · simp [filled, resumePosition_some]
  by_cases cut : .truncate .trainingState ∈ writes
  · simpa [filled, cut] using end_position_iff
  · cases found : previousSave config history last.epoch with
    | none => simpa [filled, cut] using end_position_iff
    | some saved =>
      obtain ⟨same, -⟩ := previousSave_epoch found
      simp [filled, cut, ← same, resumePosition_some]

theorem loadScheduler_iff {config : TrainerConfig} {earlier : Option TrainingState} {last : TrainingState}
    {count : Nat} : loadSchedulerStateDict config (fun file =>
      if .complete file ∈ writesBefore config last count then .complete last
      else if .truncate file ∈ writesBefore config last count then .truncated
      else (earlier.elim emptyDir (savedDir config)) file) ≠ none ↔
    ¬ (.truncate .scheduler ∈ writesBefore config last count ∧
      .complete .scheduler ∉ writesBefore config last count) := by
  unfold loadSchedulerStateDict
  by_cases without : config.schedulerType = .none
  · have unwritten : .truncate .scheduler ∉ writesBefore config last count := by
      intro member
      have written := List.mem_of_mem_take member
      unfold maybeSaveCheckpoint saveCheckpoint at written
      rw [if_pos without] at written
      split at written <;> simp at written
    simp [without, unwritten]
  · by_cases filled : .complete .scheduler ∈ writesBefore config last count
    · simp [without, filled]
    by_cases cut : .truncate .scheduler ∈ writesBefore config last count
    · simp [without, filled, cut]
    · cases earlier <;> simp [without, filled, cut, emptyDir, savedDir]

/-- A resumed run continues at the position of the save whose weights it loads, exactly when
the new weights were not complete yet, or a file it has to load is missing or cut, or the
state file tells the new position. -/
theorem consistent_crashed_iff {config : TrainerConfig} (resumes : config.resumeFromCheckpoint = true)
    {history : List TrainingState} {last : TrainingState}
    (forward : ∀ call ∈ history, call.epoch ≤ last.epoch) (count : Nat) :
    Consistent config (crashed config history last count) ↔
      .complete .model ∉ writesBefore config last count ∨
        LoadRaises (previousSave config history last.epoch) (writesBefore config last count) ∨
        PositionKept (previousSave config history last.epoch) last (writesBefore config last count) := by
  by_cases begun : writesBefore config last count = []
  · have untouched : crashed config history last count = afterCalls config history := by
      rw [crashed, begun]
      rfl
    rw [untouched, begun]
    exact iff_of_true (consistent_afterCalls resumes history) (.inl (List.not_mem_nil))
  · rw [consistent_iff resumes (crashed_previousEpoch forward begun) (crashed_get? begun),
      read_file (by decide), read_file (by decide), read_file (by decide), loadScheduler_iff]
    by_cases filled : .complete .model ∈ writesBefore config last count
    · simp only [filled, if_true, Option.some.injEq, forall_eq', positionKept_iff]
      unfold LoadRaises
      by_cases optimizer : .complete .optimizer ∈ writesBefore config last count
      · simp [optimizer, imp_iff_not_or]
      by_cases cut : .truncate .optimizer ∈ writesBefore config last count
      · simp [optimizer, cut]
      · simp [optimizer, cut, imp_iff_not_or, or_assoc]
    · apply iff_of_true _ (.inl filled)
      intro weights model _ _
      rw [if_neg filled] at model
      split at model
      next => exact absurd model (Option.some_ne_none weights).symm
      next =>
        obtain ⟨unfilled, uncut⟩ := model_first filled .trainingState (by decide)
        obtain ⟨same, -⟩ := previousSave_epoch model
        rw [if_neg unfilled, if_neg uncut, model, ← same, resumePosition_some]

def quarterEpochs : TrainerConfig := ⟨2, true, .linear, 1 / 4, false, 1⟩

theorem quarterEpochs_writes (last : TrainingState) (count : Nat) :
    writesBefore quarterEpochs last count = (saveCheckpoint quarterEpochs).take count := by
  have gate : savesEpoch quarterEpochs last.epoch = true := by
    norm_num [savesEpoch, quarterEpochs]
  rw [writesBefore, maybeSaveCheckpoint, if_pos gate]

theorem consistent_crashed_modelPending :
    Consistent quarterEpochs (crashed quarterEpochs [⟨0, 2, 2⟩] ⟨0, 4, 4⟩ 2) :=
  (consistent_crashed_iff rfl (by simp) 2).mpr (.inl (by rw [quarterEpochs_writes]; decide))

/-- The weights of step 4 are read with the position of step 2. -/
theorem consistent_crashed_staleState :
    ¬ Consistent quarterEpochs (crashed quarterEpochs [⟨0, 2, 2⟩] ⟨0, 4, 4⟩ 5) := by
  have begun : writesBefore quarterEpochs ⟨0, 4, 4⟩ 5 ≠ [] := by
    rw [quarterEpochs_writes]
    decide
  have earlier : previousSave quarterEpochs [⟨0, 2, 2⟩] 0 = some ⟨0, 2, 2⟩ := by
    norm_num [previousSave, savesEpoch, quarterEpochs]
  rw [consistent_iff rfl (crashed_previousEpoch (by simp) begun) (crashed_get? begun)]
  simp only [quarterEpochs_writes, earlier]
  intro same
  exact absurd (same ⟨0, 4, 4⟩ (by decide) (by decide) (by decide)) (by decide)

end DreamAifd.Checkpoint
