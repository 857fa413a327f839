import DreamAifd.AnchoredBlocks
import DreamAifd.Averages
import DreamAifd.CountedMetrics

/-! The validation metrics of the block drafter with its confidence head. A batch is `T` slots in
blocks; most metrics are a sum over the slots, or the blocks, that the loss mask marks, and the
number of them. -/
namespace DreamAifd.SlotMetrics

open AnchoredBlocks Averages CountedMetrics

variable {α ω : Type} {features blockSize : Nat}

inductive Metric
  | loss
  | term (name : String)
  | confidenceLoss
  | confidenceAbsError
  | confidencePredMean
  | confidenceCumprodBias
  | acceptRate
  | acceptLen
  | fullAcc
  | positionAcc (pos : Nat)
  | aifdLoss
  deriving DecidableEq

structure RowFunctions (ω α : Type) where
  softmax : ω → List α
  argmax : ω → Nat
  sigmoid : α → α
  rsqrt : α → α

structure Config where
  blockSize : Nat
  positive : 0 < blockSize
  sampleFromAnchor : Bool
  /-- The terms of the loss, when it has several. -/
  terms : List String
  distinct : terms.Nodup
  confidenceHead : Bool
  aifd : Bool
  aifdNorm : Bool

/-- What the forward of one batch on one rank hands to the metrics, slot by slot, with its losses. -/
structure SlotOutputs (ω α : Type) (features blockSize : Nat) where
  numBlocks : Nat
  logits : Nat → ω
  targets : Nat → ω
  confidenceLogits : Nat → α
  lossMask : Nat → Bool
  loss : α
  termLoss : String → α
  confidenceLoss : α
  draftHidden : List (Fin features → α)
  aifdHiddenStates : List (Fin features → α)
  anchoredBlockIndices : List Nat
  slots : anchoredBlockIndices.length = numBlocks * blockSize

def Config.startPos (config : Config) : Nat := if config.sampleFromAnchor then 0 else 1

namespace SlotOutputs

def seqLen (out : SlotOutputs ω α features blockSize) : Nat := out.numBlocks * blockSize

def draftSlot (blockSize startPos b k : Nat) : Nat := b * blockSize + (startPos + k)

def draftGrid (out : SlotOutputs ω α features blockSize) (startPos : Nat) : List (Nat × Nat) :=
  List.product (List.range out.numBlocks) (List.range (blockSize - startPos))

section Values

variable [Field α] [LinearOrder α] (fns : RowFunctions ω α) (out : SlotOutputs ω α features blockSize)
variable (startPos : Nat)

def maskF (i : Nat) : α := if out.lossMask i then 1 else 0

/-- The overlap of the two distributions of a slot. -/
def acceptRate (i : Nat) : α := (List.zipWith min (fns.softmax (out.logits i)) (fns.softmax (out.targets i))).sum

def confProb (i : Nat) : α := fns.sigmoid (out.confidenceLogits i)

def draftMask (b k : Nat) : α := out.maskF (draftSlot blockSize startPos b k)

def cumprod (f : Nat → α) (k : Nat) : α := ((List.range (k + 1)).map f).prod

def acceptPrefix (b k : Nat) : α :=
  cumprod (fun j => out.acceptRate fns (draftSlot blockSize startPos b j) * out.draftMask startPos b j) k

def confPrefix (b k : Nat) : α :=
  cumprod (fun j => out.confProb fns (draftSlot blockSize startPos b j) * out.draftMask startPos b j) k

def correct (i : Nat) : α := if fns.argmax (out.logits i) = fns.argmax (out.targets i) then 1 else 0

/-- `compute_accuracy_multi_step`: the selected slots of one position in their blocks. -/
def selected (pos : Nat) : List Nat := ((List.range out.seqLen).filter out.lossMask).filter (· % blockSize = pos)

def correctPerPos (pos : Nat) : α := ((out.selected pos).map (out.correct fns)).sum

def totalPerPos (pos : Nat) : α := ((out.selected pos).map fun _ => (1 : α)).sum

def maskTotal : α := max ((List.range out.seqLen).map out.maskF).sum 1

def maskedSum (f : Nat → α) : α := ((List.range out.seqLen).map fun i => f i * out.maskF i).sum

def perBlockLen (b : Nat) : α := ((List.range (blockSize - startPos)).map (out.acceptPrefix fns startPos b)).sum + 1

def blockValid (b : Nat) : α :=
  if 0 < ((List.range (blockSize - startPos)).map (out.draftMask startPos b)).sum then 1 else 0

def aifdMetrics (aifdNorm : Bool) : Option (AifdLoss α) :=
  computeAifdLoss fns.rsqrt out.draftHidden out.aifdHiddenStates ((List.range out.seqLen).map out.maskF)
    out.anchoredBlockIndices aifdNorm

def value (aifd : Option (AifdLoss α)) : Key Metric → α
  | .sum .loss => out.loss
  | .total .loss => 1
  | .sum (.term name) => out.termLoss name
  | .total (.term _) => 1
  | .sum .confidenceLoss => out.confidenceLoss
  | .total .confidenceLoss => 1
  | .sum .confidenceAbsError => out.maskedSum fun i => |out.confProb fns i - out.acceptRate fns i|
  | .total .confidenceAbsError => out.maskTotal
  | .sum .confidencePredMean => out.maskedSum (out.confProb fns)
  | .total .confidencePredMean => out.maskTotal
  | .sum .confidenceCumprodBias => ((out.draftGrid startPos).map fun (b, k) =>
      (out.confPrefix fns startPos b k - out.acceptPrefix fns startPos b k) * out.draftMask startPos b k).sum
  | .total .confidenceCumprodBias => max ((out.draftGrid startPos).map fun (b, k) => out.draftMask startPos b k).sum 1
  | .sum .acceptRate => out.maskedSum (out.acceptRate fns)
  | .total .acceptRate => out.maskTotal
  | .sum .acceptLen =>
    ((List.range out.numBlocks).map fun b => out.perBlockLen fns startPos b * out.blockValid startPos b).sum
  | .total .acceptLen => max ((List.range out.numBlocks).map (out.blockValid startPos)).sum 1
  | .sum .fullAcc => ((List.range' startPos (blockSize - startPos)).map (out.correctPerPos fns)).sum
  | .total .fullAcc => ((List.range' startPos (blockSize - startPos)).map out.totalPerPos).sum
  | .sum (.positionAcc pos) => out.correctPerPos fns pos
  | .total (.positionAcc pos) => out.totalPerPos pos
  | .sum .aifdLoss => (aifd.map (·.aifdLossSum)).getD 0
  | .total .aifdLoss => (aifd.map (·.aifdLossTotal)).getD 0
  | .plain _ => 0

end Values

end SlotOutputs

def Config.metricNames (config : Config) : List Metric :=
  (if config.confidenceHead then
    [Metric.confidenceLoss, .confidenceAbsError, .confidencePredMean, .confidenceCumprodBias] else []) ++
  [Metric.loss] ++ config.terms.map Metric.term ++ [Metric.acceptRate, .acceptLen, .fullAcc] ++
  (List.range' config.startPos (config.blockSize - config.startPos)).map Metric.positionAcc ++
  if config.aifd then [Metric.aifdLoss] else []

/-- `compute_metrics` and, with the channel, `compute_aifd_loss`. -/
def forwardMetrics [Field α] [LinearOrder α] (fns : RowFunctions ω α) (config : Config)
    (out : SlotOutputs ω α features config.blockSize) : Option (List (Key Metric × α)) := do
  let aifd ← if config.aifd then (out.aifdMetrics fns config.aifdNorm).map some else some none
  some (counted config.metricNames (out.value fns config.startPos aifd))

section Sums

variable {β : Type} [Field α]

theorem sum_masked (xs : List β) (p : β → Bool) (f : β → α) :
    (xs.map fun x => f x * if p x then 1 else 0).sum = ((xs.filter p).map f).sum := by
  induction xs with
  | nil => rfl
  | cons x xs ih =>
    rw [List.map_cons, List.sum_cons, ih, List.filter_cons]
    split <;> simp

theorem sum_mask (xs : List β) (p : β → Bool) :
    (xs.map fun x => if p x then (1 : α) else 0).sum = ((xs.filter p).length : α) := by
  have ones := sum_masked (α := α) xs p fun _ => 1
  simpa using ones

theorem sum_ones (xs : List β) : (xs.map fun _ => (1 : α)).sum = (xs.length : α) := by simp

/-- Adding up position by position adds up over the slots of all the positions. -/
theorem sum_positions (xs : List Nat) (start width n : Nat) (f : Nat → α) (within : n = start + width)
    (positive : 0 < n) :
    ((List.range' start width).map fun pos => ((xs.filter (· % n = pos)).map f).sum).sum =
      ((xs.filter (start ≤ · % n)).map f).sum := by
  induction xs with
  | nil => simp
  | cons x xs ih =>
    have bound := Nat.mod_lt x positive
    have single : ((List.range' start width).map fun pos => if x % n = pos then f x else 0).sum =
        if start ≤ x % n then f x else 0 := by
      rw [List.sum_map_eq_nsmul_single (x % n) _ fun pos other _ => if_neg (Ne.symm other), if_pos rfl]
      by_cases reached : start ≤ x % n
      · rw [List.count_eq_one_of_mem List.nodup_range' (by simp; omega), one_nsmul, if_pos reached]
      · rw [List.count_eq_zero_of_not_mem (by simp; omega), zero_nsmul, if_neg reached]
    have split (pos : Nat) : (((x :: xs).filter (· % n = pos)).map f).sum =
        (if x % n = pos then f x else 0) + ((xs.filter (· % n = pos)).map f).sum := by
      rw [List.filter_cons]
      by_cases here : x % n = pos
      · simp [here]
      · simp [here]
    simp only [split]
    rw [List.sum_map_add, single, ih, List.filter_cons]
    by_cases reached : start ≤ x % n
    · simp [reached]
    · simp [reached]

end Sums

/-- The metrics that are a sum over slots or blocks. -/
def Metric.perSlot : Metric → Bool
  | .loss | .term _ | .confidenceLoss => false
  | _ => true

/-- The totals that the code keeps from zero. -/
def Metric.clamped : Metric → Bool
  | .fullAcc | .positionAcc _ => false
  | _ => true

namespace SlotOutputs

section Samples

variable [Field α] [LinearOrder α] (fns : RowFunctions ω α) (out : SlotOutputs ω α features blockSize)
variable (startPos : Nat)

def validSlots : List Nat := (List.range out.seqLen).filter out.lossMask

def validDrafts : List (Nat × Nat) :=
  (out.draftGrid startPos).filter fun (b, k) => out.lossMask (draftSlot blockSize startPos b k)

def validBlocks : List Nat := (List.range out.numBlocks).filter fun b =>
  (List.range (blockSize - startPos)).any fun k => out.lossMask (draftSlot blockSize startPos b k)

/-- The values of a metric's quantity at the valid slots, or blocks, of a batch. -/
def samples (aifdNorm : Bool) : Metric → List α
  | .confidenceAbsError => out.validSlots.map fun i => |out.confProb fns i - out.acceptRate fns i|
  | .confidencePredMean => out.validSlots.map (out.confProb fns)
  | .confidenceCumprodBias =>
    (out.validDrafts startPos).map fun (b, k) => out.confPrefix fns startPos b k - out.acceptPrefix fns startPos b k
  | .acceptRate => out.validSlots.map (out.acceptRate fns)
  | .acceptLen => (out.validBlocks startPos).map (out.perBlockLen fns startPos)
  | .fullAcc => (out.validSlots.filter (startPos ≤ · % blockSize)).map (out.correct fns)
  | .positionAcc pos => (out.validSlots.filter (· % blockSize = pos)).map (out.correct fns)
  | .aifdLoss =>
    (((comparedRows out.draftHidden out.aifdHiddenStates ((List.range out.seqLen).map out.lossMask)
      out.anchoredBlockIndices).getD []).filter (·.2.2)).map fun row => rowLoss fns.rsqrt aifdNorm row.1 row.2.1
  | _ => []

theorem maskTotal_eq : out.maskTotal = max (out.validSlots.length : α) 1 := by
  rw [maskTotal, validSlots, ← sum_mask]
  rfl

omit [LinearOrder α] in
theorem maskedSum_eq (f : Nat → α) : out.maskedSum f = (out.validSlots.map f).sum := sum_masked _ _ _

variable [IsStrictOrderedRing α]

theorem blockValid_eq (b : Nat) : out.blockValid (α := α) startPos b =
    if (List.range (blockSize - startPos)).any fun k => out.lossMask (draftSlot blockSize startPos b k) then 1 else 0 := by
  have count : ((List.range (blockSize - startPos)).map (out.draftMask (α := α) startPos b)).sum = _ :=
    sum_mask _ fun k => out.lossMask (draftSlot blockSize startPos b k)
  rw [blockValid, count]
  congr 1
  rw [Nat.cast_pos, List.length_pos_iff, ne_eq, List.filter_eq_nil_iff]
  simp

omit [LinearOrder α] [IsStrictOrderedRing α] in
/-- The rows compared under a mask of numbers are those under the mask it stands for. -/
theorem comparedRows_mask {β γ : Type} (draft : List β) (target : List γ) (mask : List Bool) (indices : List Nat) :
    comparedRows draft target (mask.map fun m => if m then (1 : α) else 0) indices =
      (comparedRows draft target mask indices).map (·.map fun row => (row.1, row.2.1, if row.2.2 then 1 else 0)) := by
  rw [comparedRows, comparedRows]
  cases Gather.gather draft indices with
  | none => rfl
  | some pred =>
    cases Gather.gather target indices with
    | none => rfl
    | some tgt =>
      simp [List.zip_map_right]

omit [Field α] [IsStrictOrderedRing α] in
theorem comparedRows_marks {β γ μ : Type} {draft : List β} {target : List γ} {mask : List μ} {indices : List Nat}
    {rows : List (β × γ × μ)} (size : mask.length = indices.length)
    (compared : comparedRows draft target mask indices = some rows) : rows.map (·.2.2) = mask := by
  obtain ⟨pred, predicted, rest⟩ := Option.bind_eq_some_iff.mp compared
  obtain ⟨tgt, targets, zipped⟩ := Option.bind_eq_some_iff.mp rest
  have left := Gather.gather_length predicted
  have right := Gather.gather_length targets
  have inner : (tgt.zip mask).map (·.2) = mask := List.map_snd_zip (by omega)
  have outer : (pred.zip (tgt.zip mask)).map (·.2) = tgt.zip mask := List.map_snd_zip (by simp; omega)
  have nested : (pred.zip (tgt.zip mask)).map (·.2.2) = ((pred.zip (tgt.zip mask)).map (·.2)).map (·.2) := by
    rw [List.map_map]
    rfl
  rw [← Option.some.inj zipped, nested, outer, inner]

omit [IsStrictOrderedRing α] in
theorem aifdMetrics_samples (aifdNorm : Bool) {aifd : AifdLoss α} (returned : out.aifdMetrics fns aifdNorm = some aifd) :
    aifd.aifdLossSum = (out.samples fns startPos aifdNorm .aifdLoss).sum ∧
      aifd.aifdLossTotal = max ((out.samples fns startPos aifdNorm .aifdLoss).length : α) 1 := by
  have mask : (List.range out.seqLen).map (out.maskF (α := α)) =
      ((List.range out.seqLen).map out.lossMask).map fun m => if m then (1 : α) else 0 := by
    rw [List.map_map]
    rfl
  rw [aifdMetrics, computeAifdLoss, mask, comparedRows_mask] at returned
  cases compared : comparedRows out.draftHidden out.aifdHiddenStates ((List.range out.seqLen).map out.lossMask)
      out.anchoredBlockIndices with
  | none => simp [compared] at returned
  | some rows =>
    rw [compared] at returned
    simp only [Option.map_some, Option.bind_eq_bind, Option.bind_some, Option.some.injEq] at returned
    subst returned
    rw [samples, compared, Option.getD_some]
    refine ⟨?_, ?_⟩
    · rw [List.map_map, ← sum_masked]
      rfl
    · have marks := comparedRows_marks (by rw [List.length_map, List.length_range, seqLen, out.slots]) compared
      dsimp only
      rw [List.length_map, ← sum_mask, ← marks, List.map_map]
      rfl

/-- Every pair is the sum and the number of its samples, a clamped number being at least one. -/
theorem value_samples (config : Config) (out : SlotOutputs ω α features config.blockSize) {m : Metric}
    (counts : m.perSlot) {aifd : Option (AifdLoss α)}
    (returned : m = .aifdLoss → ∃ loss, aifd = some loss ∧ out.aifdMetrics fns config.aifdNorm = some loss) :
    out.value fns config.startPos aifd (.sum m) = (out.samples fns config.startPos config.aifdNorm m).sum ∧
      out.value fns config.startPos aifd (.total m) =
        if m.clamped then max ((out.samples fns config.startPos config.aifdNorm m).length : α) 1
        else ((out.samples fns config.startPos config.aifdNorm m).length : α) := by
  have width : config.blockSize = config.startPos + (config.blockSize - config.startPos) := by
    have positive := config.positive
    rw [Config.startPos]
    split <;> omega
  cases m with
  | loss => contradiction
  | term name => contradiction
  | confidenceLoss => contradiction
  | confidenceAbsError =>
    refine ⟨out.maskedSum_eq _, ?_⟩
    rw [value, maskTotal_eq, samples, List.length_map]
    rfl
  | confidencePredMean =>
    refine ⟨out.maskedSum_eq _, ?_⟩
    rw [value, maskTotal_eq, samples, List.length_map]
    rfl
  | confidenceCumprodBias =>
    refine ⟨sum_masked _ _ _, ?_⟩
    rw [value, samples, List.length_map, validDrafts, ← sum_mask]
    rfl
  | acceptRate =>
    refine ⟨out.maskedSum_eq _, ?_⟩
    rw [value, maskTotal_eq, samples, List.length_map]
    rfl
  | acceptLen =>
    have valid := funext (out.blockValid_eq (α := α) config.startPos)
    rw [value, value, samples, List.length_map, valid, validBlocks, ← sum_mask]
    exact ⟨sum_masked _ _ _, rfl⟩
  | fullAcc =>
    refine ⟨sum_positions _ _ _ _ _ width config.positive, ?_⟩
    rw [samples, List.length_map, ← sum_ones]
    exact sum_positions _ _ _ _ _ width config.positive
  | positionAcc pos =>
    refine ⟨rfl, ?_⟩
    rw [samples, List.length_map, ← sum_ones]
    rfl
  | aifdLoss =>
    obtain ⟨loss, rfl, computed⟩ := returned rfl
    exact out.aifdMetrics_samples fns config.startPos config.aifdNorm computed

end Samples

end SlotOutputs

theorem Config.nodup_metricNames (config : Config) : config.metricNames.Nodup := by
  have terms : (config.terms.map Metric.term).Nodup := config.distinct.map fun _ _ same => Metric.term.inj same
  have positions : ((List.range' config.startPos (config.blockSize - config.startPos)).map Metric.positionAcc).Nodup :=
    List.Nodup.map (fun _ _ same => Metric.positionAcc.inj same) List.nodup_range'
  rw [metricNames]
  refine List.nodup_append.mpr ⟨List.nodup_append.mpr ⟨List.nodup_append.mpr ⟨List.nodup_append.mpr
    ⟨?_, terms, ?_⟩, by decide, ?_⟩, positions, ?_⟩, ?_, ?_⟩
  · split <;> decide
  · -- no confidence metric and no loss is a term
    intro metric member other isTerm
    obtain ⟨name, -, rfl⟩ := List.mem_map.mp isTerm
    split at member <;> grind
  · intro metric member other isAccept
    rcases List.mem_append.mp member with front | isTerm
    · split at front <;> grind
    · grind
  · intro metric member other isPosition
    obtain ⟨position, -, rfl⟩ := List.mem_map.mp isPosition
    grind
  · split <;> decide
  · grind

section Epoch

variable [Field α] [LinearOrder α] (fns : RowFunctions ω α) (config : Config)

def aifdOf (out : SlotOutputs ω α features config.blockSize) : Option (AifdLoss α) :=
  if config.aifd then out.aifdMetrics fns config.aifdNorm else none

theorem forwardMetrics_eq {out : SlotOutputs ω α features config.blockSize}
    (returns : (forwardMetrics fns config out).isSome) :
    forwardMetrics fns config out =
        some (counted config.metricNames (out.value fns config.startPos (aifdOf fns config out))) ∧
      (.aifdLoss ∈ config.metricNames →
        ∃ loss, aifdOf fns config out = some loss ∧ out.aifdMetrics fns config.aifdNorm = some loss) := by
  rw [forwardMetrics] at returns ⊢
  rw [aifdOf]
  by_cases channel : config.aifd
  · rw [if_pos channel] at returns ⊢
    rw [if_pos channel]
    cases computed : out.aifdMetrics fns config.aifdNorm with
    | none => simp [computed] at returns
    | some loss => exact ⟨rfl, fun _ => ⟨loss, rfl, rfl⟩⟩
  · rw [if_neg channel, if_neg channel]
    refine ⟨rfl, fun member => absurd member ?_⟩
    simp [Config.metricNames, channel]

/-- The samples of a metric in an epoch, one list for each batch on each rank. -/
def cells (worldSize numBatches : Nat) (outs : Nat → Nat → SlotOutputs ω α features config.blockSize) (m : Metric) :
    List (List α) :=
  (List.range numBatches).flatMap fun b => (List.range worldSize).map fun r =>
    (outs r b).samples fns config.startPos config.aifdNorm m

theorem sum_cells {worldSize numBatches : Nat} {outs : Nat → Nat → SlotOutputs ω α features config.blockSize}
    {m : Metric} (g : List α → α) {f : Nat → Nat → α}
    (same : ∀ r < worldSize, ∀ b < numBatches, f r b = g ((outs r b).samples fns config.startPos config.aifdNorm m)) :
    ((List.range numBatches).map fun b => ((List.range worldSize).map fun r => f r b).sum).sum =
      ((cells fns config worldSize numBatches outs m).map g).sum := by
  rw [cells, List.map_flatMap, List.flatMap_def, List.sum_flatten, List.map_map]
  refine congrArg List.sum (List.map_congr_left fun b hb => ?_)
  rw [Function.comp_apply, List.map_map]
  exact congrArg List.sum (List.map_congr_left fun r hr => same r (List.mem_range.mp hr) b (List.mem_range.mp hb))

variable [IsStrictOrderedRing α]

/-- What an epoch reports, from the samples. -/
theorem valEpoch_cells {worldSize numBatches : Nat} (outs : Nat → Nat → SlotOutputs ω α features config.blockSize)
    {rank : Nat} (inWorld : rank < worldSize) (some_batch : 0 < numBatches)
    (returns : ∀ r < worldSize, ∀ b < numBatches, (forwardMetrics fns config (outs r b)).isSome) :
    ∃ val, valEpoch worldSize numBatches (fun r b => forwardMetrics fns config (outs r b)) rank = some val ∧
      ∀ m ∈ config.metricNames, m.perSlot →
        val.lookup (.plain m) = some (ratio ((cells fns config worldSize numBatches outs m).map List.sum).sum
          ((cells fns config worldSize numBatches outs m).map fun cell =>
            if m.clamped then max (cell.length : α) 1 else (cell.length : α)).sum) := by
  have counts : ∀ r < worldSize, ∀ b < numBatches, forwardMetrics fns config (outs r b) = some (counted
      config.metricNames ((outs r b).value fns config.startPos (aifdOf fns config (outs r b)))) :=
    fun r hr b hb => (forwardMetrics_eq fns config (returns r hr b hb)).1
  obtain ⟨val, run, result⟩ := valEpoch_ratio config.nodup_metricNames inWorld some_batch counts
  refine ⟨val, run, fun m member counts => ?_⟩
  have pair (r : Nat) (hr : r < worldSize) (b : Nat) (hb : b < numBatches) :=
    SlotOutputs.value_samples fns config (outs r b) counts
      fun same => (forwardMetrics_eq fns config (returns r hr b hb)).2 (same ▸ member)
  rw [result m member]
  dsimp only
  rw [sum_cells fns config (m := m) List.sum fun r hr b hb => (pair r hr b hb).1,
    sum_cells fns config (m := m) (fun cell => if m.clamped then max (cell.length : α) 1 else (cell.length : α))
      fun r hr b hb => (pair r hr b hb).2]

/-- A metric of an epoch is the mean over all batches and ranks, except where its total is kept from zero
and some batch of some rank has nothing to count while the values of the others do not cancel. -/
theorem valEpoch_mean_iff {worldSize numBatches : Nat}
    (outs : Nat → Nat → SlotOutputs ω α features config.blockSize) {rank : Nat} (inWorld : rank < worldSize)
    (some_batch : 0 < numBatches)
    (returns : ∀ r < worldSize, ∀ b < numBatches, (forwardMetrics fns config (outs r b)).isSome) :
    ∃ val, valEpoch worldSize numBatches (fun r b => forwardMetrics fns config (outs r b)) rank = some val ∧
      ∀ m ∈ config.metricNames, m.perSlot →
        (val.lookup (.plain m) = some (mean (cells fns config worldSize numBatches outs m).flatten) ↔
          (m.clamped → (∀ cell ∈ cells fns config worldSize numBatches outs m, cell ≠ []) ∨
            (cells fns config worldSize numBatches outs m).flatten.sum = 0)) := by
  obtain ⟨val, run, result⟩ := valEpoch_cells fns config outs inWorld some_batch returns
  refine ⟨val, run, fun m member counts => ?_⟩
  rw [result m member counts, Option.some.injEq]
  by_cases clamped : m.clamped
  · simp only [clamped, if_true, forall_const]
    apply ratio_clamped_iff
    rw [cells, ne_eq, List.flatMap_eq_nil_iff]
    intro none
    simpa [Nat.ne_of_gt (Nat.zero_lt_of_lt inWorld)] using none 0 (List.mem_range.mpr some_batch)
  · simp only [clamped, Bool.false_eq_true, if_false, false_imp_iff, iff_true]
    exact ratio_eq_mean _

end Epoch

def evenRows : RowFunctions (List ℚ) ℚ where
  softmax row := row.map fun _ => 1 / (row.length : ℚ)
  argmax _ := 0
  sigmoid _ := 1 / 2
  rsqrt _ := 1

def oneSlot : Config where
  blockSize := 1
  positive := Nat.one_pos
  sampleFromAnchor := true
  terms := []
  distinct := List.nodup_nil
  confidenceHead := false
  aifd := false
  aifdNorm := false

def slotBatch (valid : Bool) : SlotOutputs (List ℚ) ℚ 0 1 where
  numBlocks := 1
  logits _ := [0, 0]
  targets _ := [0, 0]
  confidenceLogits _ := 0
  lossMask _ := valid
  loss := 0
  termLoss _ := 0
  confidenceLoss := 0
  draftHidden := []
  aifdHiddenStates := []
  anchoredBlockIndices := [0]
  slots := rfl

/-- One batch with a slot to count and one without: half of the acceptance rate is reported. -/
theorem not_valEpoch_mean_emptyMask :
    (valEpoch 1 2 (fun _ b => forwardMetrics evenRows oneSlot (slotBatch (b = 0))) 0).bind
      (·.lookup (.plain .acceptRate)) = some (1 / 2) ∧
    mean (cells evenRows oneSlot 1 2 (fun _ b => slotBatch (b = 0)) .acceptRate).flatten = 1 := by
  decide +kernel

theorem valEpoch_mean_twoBatches :
    ∃ val, valEpoch 1 2 (fun _ b => forwardMetrics evenRows oneSlot (slotBatch (b = 0))) 0 = some val ∧
      ∀ m ∈ oneSlot.metricNames, m.perSlot →
        (val.lookup (.plain m) =
            some (mean (cells evenRows oneSlot 1 2 (fun _ b => slotBatch (b = 0)) m).flatten) ↔
          (m.clamped → (∀ cell ∈ cells evenRows oneSlot 1 2 (fun _ b => slotBatch (b = 0)) m, cell ≠ []) ∨
            (cells evenRows oneSlot 1 2 (fun _ b => slotBatch (b = 0)) m).flatten.sum = 0)) :=
  valEpoch_mean_iff evenRows oneSlot (fun _ b => slotBatch (b = 0)) Nat.one_pos Nat.two_pos
    fun _ _ _ _ => rfl

end DreamAifd.SlotMetrics
