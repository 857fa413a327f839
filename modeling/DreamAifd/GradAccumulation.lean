import DreamAifd.TrainEpoch

/-! What the accumulation loop does to the gradients of an epoch: its steps consume the full
windows of the micro-batches visited, and the rest as well when the loop reaches the step
number the epoch was entered with. -/
namespace DreamAifd.Training

open Checkpoint

variable {σ β V : Type*} [AddCommGroup V] [Module ℚ V]

def micros (plan : EpochPlan) (globalStep : Nat) (batches : List β) : List (Micro β) :=
  batches.mapIdx fun k batch => ⟨plan.epoch, 1 + k + plan.skipSteps, globalStep + k, batch⟩

/-- The mid-epoch save after turn `k`, counted from 0. -/
def savedAt (config : TrainerConfig) (plan : EpochPlan) (globalStep k : Nat) : List TrainingState :=
  if savesStep config plan (1 + k + plan.skipSteps) then
    [⟨plan.epoch, 1 + k + plan.skipSteps, globalStep + k + 1⟩] else []

/-- The mid-epoch saves of the first `count` turns. -/
def savedStates (config : TrainerConfig) (plan : EpochPlan) (globalStep count : Nat) : List TrainingState :=
  (List.range count).flatMap (savedAt config plan globalStep)

def closedWindows {α : Type*} (plan : EpochPlan) (visited : List α) : List (List α) :=
  Windows.full plan.accumSteps visited ++
    if visited.length = plan.numSteps ∧ ¬ plan.accumSteps ∣ visited.length then
      [Windows.rest plan.accumSteps visited] else []

/-- What `accum_steps` scaled losses add up to. -/
def scaled (accumSteps : Nat) (window : List (Backward β V)) : V :=
  (accumSteps : ℚ)⁻¹ • (window.map Prod.snd).sum

def stepOf (accumSteps : Nat) (window : List (Backward β V)) : Update β V :=
  ⟨window, scaled accumSteps window⟩

theorem scaled_concat (accumSteps : Nat) (window : List (Backward β V)) (last : Backward β V) :
    scaled accumSteps (window ++ [last]) = scaled accumSteps window + (accumSteps : ℚ)⁻¹ • last.2 := by
  simp [scaled, smul_add]

/-- The state `s` after turns of the loop over `batches` from `entered`, where `visited`
are the micro-batches of these turns. -/
structure Trained (config : TrainerConfig) (learner : Learner σ β V) (plan : EpochPlan)
    (entered : Trainer σ β V) (batches : List β) (visited : List (Backward β V)) (s : Trainer σ β V) :
    Prop where
  micros_eq : visited.map Prod.fst = micros plan entered.globalStep batches
  gradients_eq : ∀ back ∈ visited, ∃ model, back.2 = learner.lossGradient model back.1.batch
  visited_eq : s.ledger.visited = entered.ledger.visited ++ visited
  updates_eq : s.ledger.updates = entered.ledger.updates ++
    (closedWindows plan visited).map (stepOf plan.accumSteps)
  pending_eq : ¬ plan.accumSteps ∣ visited.length →
    s.ledger.pending = Windows.rest plan.accumSteps visited
  grad_eq : ¬ plan.accumSteps ∣ visited.length →
    s.grad = scaled plan.accumSteps (Windows.rest plan.accumSteps visited)
  checkpoints_eq : s.ledger.checkpoints = entered.ledger.checkpoints ++
    savedStates config plan entered.globalStep batches.length
  globalStep_eq : s.globalStep = entered.globalStep + batches.length
  currentEpoch_eq : s.currentEpoch = entered.currentEpoch
  resumeLocalStep_eq : s.resumeLocalStep = entered.resumeLocalStep
  sampler_eq : s.sampler = entered.sampler

@[simp] theorem length_micros (plan : EpochPlan) (globalStep : Nat) (batches : List β) :
    (micros plan globalStep batches).length = batches.length := List.length_mapIdx

theorem micros_concat (plan : EpochPlan) (globalStep : Nat) (batches : List β) (batch : β) :
    micros plan globalStep (batches ++ [batch]) = micros plan globalStep batches ++
      [⟨plan.epoch, 1 + batches.length + plan.skipSteps, globalStep + batches.length, batch⟩] := by
  simp [micros, List.mapIdx_append]

/-- One more micro-batch before the epoch's last step closes a window at a window end. -/
theorem closedWindows_concat {α : Type*} {plan : EpochPlan} (positive : 0 < plan.accumSteps)
    {visited : List α} (within : visited.length < plan.numSteps) (x : α) :
    closedWindows plan (visited ++ [x]) = closedWindows plan visited ++
      if (accumWindowBounds (1 + visited.length) plan.numSteps plan.accumSteps).2 then
        [Windows.rest plan.accumSteps visited ++ [x]] else [] := by
  have inside : ¬ (visited.length = plan.numSteps ∧ ¬ plan.accumSteps ∣ visited.length) :=
    fun last => within.ne last.1
  rw [closedWindows, closedWindows, if_neg inside, List.append_nil, Windows.full_concat positive,
    List.length_append, List.length_singleton, accumWindowBounds, Nat.add_comm 1]
  by_cases closed : plan.accumSteps ∣ visited.length + 1
  · simp [closed, Nat.mod_eq_zero_of_dvd closed]
  · have opened : (visited.length + 1) % plan.accumSteps ≠ 0 := mt Nat.dvd_of_mod_eq_zero closed
    simp [closed, opened, Windows.rest_concat _ _ closed]

namespace Trained

variable {config : TrainerConfig} {learner : Learner σ β V} {plan : EpochPlan} {entered s : Trainer σ β V}
  {batches : List β} {visited : List (Backward β V)}

theorem length_visited (trained : Trained config learner plan entered batches visited s) :
    visited.length = batches.length := by
  have same := congrArg List.length trained.micros_eq
  rwa [List.length_map, length_micros] at same

theorem nil (config : TrainerConfig) (learner : Learner σ β V) (plan : EpochPlan) (s : Trainer σ β V) :
    Trained config learner plan s [] [] s := by
  constructor <;> simp [micros, closedWindows, Windows.full, savedStates]

/-- The buffer after a turn: the open window with the turn's micro-batch. -/
theorem buffer (trained : Trained config learner plan entered batches visited s) (batch : β) :
    let turn := s.trainStep config learner plan (1 + batches.length) batch
    let back := (s.microAt plan (1 + batches.length) batch, learner.lossGradient s.model batch)
    turn.ledger.pending = Windows.rest plan.accumSteps visited ++ [back] ∧
      turn.grad = scaled plan.accumSteps (Windows.rest plan.accumSteps visited ++ [back]) := by
  intro turn back
  have start : (accumWindowBounds (1 + batches.length) plan.numSteps plan.accumSteps).1 =
      decide (plan.accumSteps ∣ visited.length) := by
    simp [accumWindowBounds, trained.length_visited, Nat.dvd_iff_mod_eq_zero]
  rw [Trainer.trainStep_pending, Trainer.trainStep_grad, Trainer.pendingAt, Trainer.gradAt, start,
    scaled_concat]
  by_cases closed : plan.accumSteps ∣ visited.length
  · simp [closed, Windows.rest_of_dvd closed, scaled, back]
  · simp [closed, trained.pending_eq closed, trained.grad_eq closed, back]

/-- One turn of the loop, as long as the epoch's last step is not behind it. -/
theorem concat (trained : Trained config learner plan entered batches visited s) (positive : 0 < plan.accumSteps)
    (within : batches.length < plan.numSteps) (batch : β) :
    Trained config learner plan entered (batches ++ [batch])
      (visited ++ [(s.microAt plan (1 + batches.length) batch, learner.lossGradient s.model batch)])
      (s.trainStep config learner plan (1 + batches.length) batch) := by
  have size := trained.length_visited
  obtain ⟨pending, grad⟩ := trained.buffer batch
  obtain ⟨step, epoch, resume, sampler⟩ :=
    Trainer.trainStep_frame config learner plan (1 + batches.length) s batch
  constructor
  case micros_eq =>
    rw [List.map_append, trained.micros_eq, List.map_singleton, micros_concat, Trainer.microAt,
      trained.globalStep_eq]
  case gradients_eq =>
    intro back member
    rcases List.mem_append.mp member with earlier | now
    · exact trained.gradients_eq back earlier
    · obtain rfl := List.mem_singleton.mp now
      exact ⟨s.model, rfl⟩
  case visited_eq => rw [Trainer.trainStep_visited, trained.visited_eq, List.append_assoc]
  case updates_eq =>
    rw [Trainer.trainStep_updates, trained.updates_eq, pending, grad, List.append_assoc,
      closedWindows_concat positive (size ▸ within), List.map_append, size]
    split <;> rfl
  case pending_eq =>
    intro opened
    rw [List.length_append, List.length_singleton] at opened
    rw [pending, Windows.rest_concat _ _ opened]
  case grad_eq =>
    intro opened
    rw [List.length_append, List.length_singleton] at opened
    rw [grad, Windows.rest_concat _ _ opened]
  case checkpoints_eq =>
    rw [Trainer.trainStep_checkpoints, trained.checkpoints_eq, List.append_assoc, List.length_append,
      List.length_singleton]
    simp [savedStates, savedAt, List.range_succ, trained.globalStep_eq]
  case globalStep_eq => rw [step, trained.globalStep_eq, List.length_append, List.length_singleton, Nat.add_assoc]
  case currentEpoch_eq => exact epoch.trans trained.currentEpoch_eq
  case resumeLocalStep_eq => exact resume.trans trained.resumeLocalStep_eq
  case sampler_eq => exact sampler.trans trained.sampler_eq

theorem steps (config : TrainerConfig) (learner : Learner σ β V) {plan : EpochPlan}
    (positive : 0 < plan.accumSteps) (entered : Trainer σ β V) (batches : List β)
    (within : batches.length ≤ plan.numSteps) : ∃ visited, Trained config learner plan entered batches visited
      (entered.trainSteps config learner plan 1 batches) := by
  induction batches using List.reverseRecOn with
  | nil => exact ⟨[], nil config learner plan entered⟩
  | append_singleton batches batch ih =>
    rw [List.length_append, List.length_singleton] at within
    obtain ⟨visited, trained⟩ := ih (by omega)
    rw [Trainer.trainSteps_concat]
    exact ⟨_, trained.concat positive (by omega) batch⟩

end Trained

theorem accumSteps_pos (config : TrainerConfig) : 0 < accumSteps config := by
  unfold accumSteps
  omega

theorem trainEpoch_trained (config : TrainerConfig) (learner : Learner σ β V) {epoch : Nat}
    {s : Trainer σ β V} (fresh : s.sampler.Fresh epoch) :
    ∃ visited, Trained config learner (s.epochPlan config epoch) (s.entered epoch) (s.epochBatches epoch)
      visited (s.trainEpoch config learner epoch) := by
  rw [Trainer.trainEpoch_eq config learner fresh]
  apply Trained.steps config learner (accumSteps_pos config)
  rw [Trainer.epochBatches, List.length_drop]
  exact Nat.sub_le _ _

def epochLedger (config : TrainerConfig) (learner : Learner σ β V) (epoch : Nat) (s : Trainer σ β V) :
    Ledger β V :=
  ({ s with ledger := .empty }.trainEpoch config learner epoch).ledger

omit [AddCommGroup V] [Module ℚ V] in
theorem length_epochBatches (s : Trainer σ β V) (epoch : Nat) :
    (s.epochBatches epoch).length = (s.sampler.packed epoch).length - s.skipSteps epoch := by
  rw [Trainer.epochBatches, List.length_drop]

omit [AddCommGroup V] [Module ℚ V] in
/-- The last step of the loop is the epoch's last one only when nothing was skipped. -/
theorem closedWindows_epoch (config : TrainerConfig) (s : Trainer σ β V) (epoch : Nat) {α : Type*}
    {visited : List α} (size : visited.length = (s.epochBatches epoch).length) :
    closedWindows (s.epochPlan config epoch) visited = Windows.full (accumSteps config) visited ++
      if s.skipSteps epoch = 0 ∧ ¬ accumSteps config ∣ (s.sampler.packed epoch).length then
        [Windows.rest (accumSteps config) visited] else [] := by
  rw [closedWindows]
  congr 1
  rw [length_epochBatches] at size
  simp only [Trainer.epochPlan]
  apply if_congr _ rfl rfl
  constructor
  · rintro ⟨whole, opened⟩
    have some : (s.sampler.packed epoch).length ≠ 0 := by
      intro none
      rw [whole, none] at opened
      exact opened (dvd_zero _)
    exact ⟨by omega, whole ▸ opened⟩
  · rintro ⟨whole, opened⟩
    rw [whole, Nat.sub_zero] at size
    exact ⟨size, size ▸ opened⟩

/-- The loop records the windows it closed, each with the gradient the step sees. -/
theorem epochLedger_eq (config : TrainerConfig) (learner : Learner σ β V) {epoch : Nat}
    {s : Trainer σ β V} (fresh : s.sampler.Fresh epoch) :
    ∃ visited : List (Backward β V),
      visited.map Prod.fst = micros (s.epochPlan config epoch) s.globalStep (s.epochBatches epoch) ∧
      (∀ back ∈ visited, ∃ model, back.2 = learner.lossGradient model back.1.batch) ∧
      (epochLedger config learner epoch s).visited = visited ∧
      (epochLedger config learner epoch s).updates =
        (closedWindows (s.epochPlan config epoch) visited).map (stepOf (accumSteps config)) := by
  obtain ⟨visited, trained⟩ := trainEpoch_trained config learner (s := { s with ledger := .empty }) fresh
  exact ⟨visited, trained.micros_eq, trained.gradients_eq, by
    rw [epochLedger, trained.visited_eq]; rfl, by rw [epochLedger, trained.updates_eq]; rfl⟩

theorem windows_stepOf (accumSteps : Nat) (windows : List (List (Backward β V))) :
    (windows.map (stepOf accumSteps)).flatMap Update.window = windows.flatten := by
  rw [List.flatMap_map]
  exact List.flatMap_id'

theorem nodup_localSteps (plan : EpochPlan) (globalStep : Nat) (batches : List β) :
    ((micros plan globalStep batches).map Micro.localStep).Nodup := by
  have steps : (micros plan globalStep batches).map Micro.localStep =
      (List.range batches.length).map fun k => 1 + k + plan.skipSteps := by
    apply List.ext_getElem
    · simp
    · intro k _ _
      simp [micros]
  rw [steps]
  apply List.nodup_range.map
  intro j k same
  simp only at same
  omega

/-- Every micro-batch back-propagated is in the buffer of exactly one optimizer step. -/
def ContributesOnce (ledger : Ledger β V) : Prop :=
  ∀ back ∈ ledger.visited,
    ((ledger.updates.flatMap Update.window).map fun used => used.1.localStep).count back.1.localStep = 1

/-- An epoch loses no gradient exactly when it is entered at its start or its remaining
micro-batches fill their windows. -/
theorem contributesOnce_iff (config : TrainerConfig) (learner : Learner σ β V) {epoch : Nat}
    {s : Trainer σ β V} (fresh : s.sampler.Fresh epoch) :
    ContributesOnce (epochLedger config learner epoch s) ↔
      s.skipSteps epoch = 0 ∨
        accumSteps config ∣ (s.sampler.packed epoch).length - s.skipSteps epoch := by
  obtain ⟨visited, micros_eq, -, visited_eq, updates_eq⟩ := epochLedger_eq config learner fresh
  have size : visited.length = (s.epochBatches epoch).length := by
    rw [← List.length_map Prod.fst, micros_eq, length_micros]
  have distinct : (visited.map fun back => back.1.localStep).Nodup := by
    have steps := nodup_localSteps (s.epochPlan config epoch) s.globalStep (s.epochBatches epoch)
    rwa [← micros_eq, List.map_map] at steps
  have cut := Windows.flatten_full (accumSteps_pos config) visited
  rw [ContributesOnce, visited_eq, updates_eq, windows_stepOf, closedWindows_epoch config s epoch size,
    ← length_epochBatches, ← size]
  constructor
  · intro once
    by_contra lost
    obtain ⟨skipped, opened⟩ := not_or.mp lost
    rw [if_neg fun tail => skipped tail.1, List.append_nil] at once
    have left : Windows.rest (accumSteps config) visited ≠ [] := by
      apply List.ne_nil_of_length_pos
      rw [Windows.length_rest]
      exact Nat.pos_of_ne_zero (mt Nat.dvd_of_mod_eq_zero opened)
    obtain ⟨back, member⟩ := List.exists_mem_of_ne_nil _ left
    rw [← cut, List.map_append] at distinct
    have unused := List.disjoint_of_nodup_append distinct
    have none := List.count_eq_zero.mpr fun used => unused used (List.mem_map_of_mem member)
    have one := once back (cut ▸ List.mem_append_right _ member)
    exact absurd (none.symm.trans one) (by decide)
  · intro kept back member
    have all : (Windows.full (accumSteps config) visited ++
        if s.skipSteps epoch = 0 ∧ ¬ accumSteps config ∣ (s.sampler.packed epoch).length then
          [Windows.rest (accumSteps config) visited] else []).flatten = visited := by
      rw [List.flatten_append]
      split
      next => rw [List.flatten_singleton, cut]
      next whole =>
        have divides : accumSteps config ∣ visited.length := by
          rcases kept with start | divides
          · rw [size, length_epochBatches, start, Nat.sub_zero]
            exact not_not.mp fun opened => whole ⟨start, opened⟩
          · exact divides
        rw [List.flatten_nil]
        rwa [Windows.rest_of_dvd divides] at cut
    rw [all]
    exact List.count_eq_one_of_mem distinct (List.mem_map_of_mem member)

/-- Two micro-batches a step, three in the epoch; the gradient of a batch is its number. -/
def pairs : TrainerConfig := ⟨1, true, .linear, 1, false, 2⟩

def numbered : Learner Unit ℚ ℚ := ⟨fun _ batch => batch, fun model _ => model, id⟩

def threeBatches (resumeLocalStep : Nat) : Trainer Unit ℚ ℚ :=
  ⟨(), 0, resumeLocalStep, 0, resumeLocalStep, ⟨fun _ => [1, 2, 3], 0, none⟩, .empty⟩

theorem contributesOnce_evenTail : ContributesOnce (epochLedger pairs numbered 0 (threeBatches 1)) :=
  (contributesOnce_iff pairs numbered (by simp [Sampler.Fresh, threeBatches])).mpr (.inr (by decide))

/-- Resumed behind two batches, the third is back-propagated and no step follows. -/
theorem contributesOnce_lostTail : ¬ ContributesOnce (epochLedger pairs numbered 0 (threeBatches 2)) := by
  unfold ContributesOnce
  decide

def mean (window : List (Backward β V)) : V :=
  (window.length : ℚ)⁻¹ • (window.map Prod.snd).sum

/-- Every window of the micro-batches visited, a trailing partial one included, has its
optimizer step, and the step sees the window's mean. -/
def SeesMeans (accumSteps : Nat) (ledger : Ledger β V) : Prop :=
  ledger.updates = (Windows.all accumSteps ledger.visited).map fun window => ⟨window, mean window⟩

theorem stepOf_full {accumSteps : Nat} {visited window : List (Backward β V)}
    (member : window ∈ Windows.full accumSteps visited) :
    stepOf accumSteps window = ⟨window, mean window⟩ := by
  rw [stepOf, scaled, mean, Windows.length_of_mem_full member]

/-- A partial window is scaled by the full size: a sum of equal gradients comes out short. -/
theorem scaled_ne_mean [Nontrivial V] {accumSteps : Nat} {window : List (Backward β V)}
    {gradient : V} (nonzero : gradient ≠ 0) (equal : ∀ back ∈ window, back.2 = gradient)
    (some : window ≠ []) (partly : window.length < accumSteps) : scaled accumSteps window ≠ mean window := by
  have sum : (window.map Prod.snd).sum = (window.length : ℚ) • gradient := by
    have same : window.map Prod.snd = List.replicate window.length gradient := by
      apply List.eq_replicate_iff.mpr
      simpa using fun gradient micro member => equal (micro, gradient) member
    rw [same, List.sum_replicate, Nat.cast_smul_eq_nsmul]
  have positive : (window.length : ℚ) ≠ 0 := by
    rw [Nat.cast_ne_zero]
    exact (List.length_pos_of_ne_nil some).ne'
  intro same
  rw [scaled, mean, sum, smul_smul, smul_smul, inv_mul_cancel₀ positive] at same
  have factor := smul_left_injective ℚ nonzero same
  have full : (accumSteps : ℚ) ≠ 0 := by
    rw [Nat.cast_ne_zero]
    omega
  rw [inv_mul_eq_one₀ full, Nat.cast_inj] at factor
  omega

/-- For every model the steps see means exactly when the micro-batches fill their windows. -/
theorem seesMeans_iff [Nontrivial V] (config : TrainerConfig) {epoch : Nat} {s : Trainer σ β V}
    (fresh : s.sampler.Fresh epoch) :
    (∀ learner : Learner σ β V,
      SeesMeans (accumSteps config) (epochLedger config learner epoch s)) ↔
      accumSteps config ∣ (s.sampler.packed epoch).length - s.skipSteps epoch := by
  rw [← length_epochBatches]
  constructor
  · intro sees
    obtain ⟨gradient, nonzero⟩ := exists_ne (0 : V)
    have means := sees ⟨fun _ _ => gradient, fun model _ => model, id⟩
    obtain ⟨visited, micros_eq, gradients, visited_eq, updates_eq⟩ :=
      epochLedger_eq config ⟨fun _ _ => gradient, fun model _ => model, id⟩ fresh
    have size : visited.length = (s.epochBatches epoch).length := by
      rw [← List.length_map Prod.fst, micros_eq, length_micros]
    rw [SeesMeans, visited_eq, updates_eq, closedWindows_epoch config s epoch size, Windows.all,
      List.map_append, List.map_append, size] at means
    have tails := (List.append_inj means (by simp)).2
    by_contra opened
    rw [if_neg opened] at tails
    split at tails
    next =>
      have short := congrArg Update.gradient (List.head_eq_of_cons_eq tails)
      apply scaled_ne_mean nonzero _ _ _ short
      · intro back member
        obtain ⟨_, equal⟩ := gradients back (List.mem_of_mem_drop member)
        exact equal
      · apply List.ne_nil_of_length_pos
        rw [Windows.length_rest, size]
        exact Nat.pos_of_ne_zero (mt Nat.dvd_of_mod_eq_zero opened)
      · rw [Windows.length_rest]
        exact Nat.mod_lt _ (accumSteps_pos config)
    next => exact absurd tails (by simp)
  · intro divides learner
    obtain ⟨visited, micros_eq, -, visited_eq, updates_eq⟩ := epochLedger_eq config learner fresh
    have size : visited.length = (s.epochBatches epoch).length := by
      rw [← List.length_map Prod.fst, micros_eq, length_micros]
    have filled : ¬ (visited.length = (s.epochPlan config epoch).numSteps ∧
        ¬ (s.epochPlan config epoch).accumSteps ∣ visited.length) := by
      rintro ⟨-, opened⟩
      exact opened (size ▸ divides)
    rw [SeesMeans, visited_eq, updates_eq, closedWindows, if_neg filled, List.append_nil,
      Windows.all_of_dvd (size ▸ divides)]
    exact List.map_congr_left fun window member => stepOf_full member

theorem seesMeans_evenTail : SeesMeans 2 (epochLedger pairs numbered 0 (threeBatches 1)) :=
  (seesMeans_iff pairs (by simp [Sampler.Fresh, threeBatches])).mpr (by decide) numbered

/-- The last step of three batches sees half of the third gradient. -/
theorem seesMeans_halvedTail : ¬ SeesMeans 2 (epochLedger pairs numbered 0 (threeBatches 0)) := by
  intro means
  have gradients := congrArg (List.map Update.gradient) means
  exact absurd gradients (by decide +kernel)

end DreamAifd.Training
