import DreamAifd.AnchoredBlocks
import DreamAifd.Collate

/-! Which positions the drafters are scored against. Every architecture shifts or gathers the
packed loss mask in its own way; a scored pair names the position whose context the draft
reads and the one it is scored against. -/
namespace DreamAifd.Supervision

open Collate AnchoredBlocks Gather

structure ScoredPair where
  source : Nat
  target : Nat
  weight : ℚ
  deriving DecidableEq

/-- DFlash and DSpark: the slots of every anchor's block under the aligned mask. -/
def blockPairs (sampleFromAnchor : Bool) (blockSize numAnchors : Nat) (perm : List Nat) (lossMask : List ℚ) :
    Option (List ScoredPair) := do
  let (anchorPositions, anchorValid) ← selectAnchors lossMask numAnchors blockSize perm
  let anchoredBlockIndices := getBaseIndicesForAnchoredBlocks anchorPositions blockSize
  let gathered ← gather lossMask anchoredBlockIndices
  let alignedLossMask := alignMask sampleFromAnchor blockSize gathered anchorValid
  let sources := anchorPositions.flatMap fun p => List.replicate blockSize p
  some (List.zipWith (fun source slot => ⟨source, slot.1, slot.2⟩) sources
    (anchoredBlockIndices.zip alignedLossMask))

/-- EAGLE-3: `align_for_step` cuts the first `ttt_step` targets and the last rows, and the
loss of a step decays by its power. -/
def eaglePairs (tttSteps : Nat) (tttStepLossDecay : ℚ) (lossMask : List ℚ) : List ScoredPair :=
  (List.range tttSteps).flatMap fun tttStep =>
    (List.range (lossMask.length - tttStep)).map fun i =>
      ⟨i, i + tttStep, lossMask.getD (i + tttStep) 0 * tttStepLossDecay ^ tttStep⟩

/-- The steps an MTP forward makes and the rows of each. -/
def effectiveSteps (numSteps seqLen : Nat) : Nat := min numSteps (seqLen - 2)

def validLen (numSteps seqLen : Nat) : Nat := seqLen - effectiveSteps numSteps seqLen - 1

def mtpStepWeight (stepWeights : Option (List ℚ)) (step : Nat) : ℚ :=
  stepWeights.elim 1 fun weights => weights.getD step 0

/-- MTP: targets with a zero mask are ignored. `none` where the weights are refused. -/
def mtpPairs (numSteps : Nat) (stepWeights : Option (List ℚ)) (lossMask : List ℚ) :
    Option (List ScoredPair) :=
  if stepWeights.any fun weights => weights.length != numSteps then none
  else some ((List.range (effectiveSteps numSteps lossMask.length)).flatMap fun step =>
    (List.range (validLen numSteps lossMask.length)).map fun t =>
      ⟨t, t + step + 2,
        if lossMask.getD (t + step + 2) 0 = 0 then 0 else mtpStepWeight stepWeights step⟩)

inductive Architecture where
  | block (sampleFromAnchor : Bool) (blockSize numAnchors : Nat) (perm : List Nat)
  | eagle3 (tttSteps : Nat) (tttStepLossDecay : ℚ)
  | mtp (numSpeculativeSteps : Nat) (stepWeights : Option (List ℚ))

def Architecture.scoredPairs (arch : Architecture) (lossMask : List ℚ) : Option (List ScoredPair) :=
  match arch with
  | .block sampleFromAnchor blockSize numAnchors perm =>
    blockPairs sampleFromAnchor blockSize numAnchors perm lossMask
  | .eagle3 tttSteps tttStepLossDecay => some (eaglePairs tttSteps tttStepLossDecay lossMask)
  | .mtp numSteps stepWeights => mtpPairs numSteps stepWeights lossMask

def SameDocument (batch : PackedSample) (i j : Nat) : Prop :=
  ∃ id, 0 ≤ id ∧ batch.documentIds[i]? = some id ∧ batch.documentIds[j]? = some id

/-- Every pair that carries weight lies within one document. -/
def WithinDocuments (arch : Architecture) (batch : PackedSample) : Prop :=
  ∀ pairs, arch.scoredPairs batch.lossMask = some pairs →
    ∀ pair ∈ pairs, pair.weight ≠ 0 → SameDocument batch pair.source pair.target

/-- Position `b` starts the document of position `j`, and another one ends in front of it. -/
structure DocumentStart (batch : PackedSample) (b j : Nat) : Prop where
  positive : 0 < b
  before : b ≤ j
  other : batch.documentIds[b - 1]? ≠ batch.documentIds[b]?
  same : ∀ i, b ≤ i → i ≤ j → batch.documentIds[i]? = batch.documentIds[j]?

/-- Behind the last position of another document the document of `j` starts. -/
theorem exists_documentStart {batch : PackedSample} {i j : Nat} (before : i ≤ j)
    (differ : batch.documentIds[i]? ≠ batch.documentIds[j]?) :
    ∃ b, i < b ∧ DocumentStart batch b j := by
  let last := Nat.findGreatest (fun k => batch.documentIds[k]? ≠ batch.documentIds[j]?) j
  have other : batch.documentIds[last]? ≠ batch.documentIds[j]? :=
    Nat.findGreatest_spec (P := fun k => batch.documentIds[k]? ≠ batch.documentIds[j]?) before differ
  have behind : i ≤ last := Nat.le_findGreatest before differ
  have bound : last ≤ j := Nat.findGreatest_le j
  have inside : last < j := by
    rcases bound.lt_or_eq with less | same
    · exact less
    · exact absurd (congrArg (batch.documentIds[·]?) same) other
  have same : ∀ k, last + 1 ≤ k → k ≤ j → batch.documentIds[k]? = batch.documentIds[j]? := by
    intro k low high
    exact not_not.mp (Nat.findGreatest_is_greatest low high)
  refine ⟨last + 1, Nat.lt_succ_of_le behind, Nat.succ_pos last, inside, ?_, same⟩
  rwa [Nat.add_sub_cancel, same (last + 1) le_rfl inside]

/-- A trained position and one in front of it lie in different documents when the later
document starts between them. -/
theorem crosses_iff {batch : PackedSample} {i j : Nat} (before : i ≤ j)
    (trained : batch.lossMask.getD j 0 ≠ 0) :
    ¬ SameDocument batch i j ↔ ∃ b, i < b ∧ DocumentStart batch b j := by
  obtain ⟨id, given, document⟩ := batch.trained_id trained
  constructor
  · intro apart
    apply exists_documentStart before
    intro same
    exact apart ⟨id, document, same.trans given, given⟩
  · rintro ⟨b, between, start⟩ ⟨same, -, source, target⟩
    have here : batch.documentIds[b]? = some id := (start.same b le_rfl start.before).trans given
    obtain ⟨previous, held, low, high⟩ := batch.ordered (Nat.sub_le b 1) here document
    have bound : i ≤ b - 1 := by omega
    obtain ⟨first, first_held, -, small⟩ := batch.ordered bound held low
    have ids : first = id ∧ same = id := by
      rw [source] at first_held
      rw [target] at given
      exact ⟨(Option.some.inj first_held).symm.trans (Option.some.inj given), Option.some.inj given⟩
    have equal : previous = id := by omega
    exact start.other (by rw [held, here, equal])

/-- No position that is trained on lies fewer than `shift` positions behind the start of its
document, as far as sources below `sources` reach. -/
def HeadsMasked (batch : PackedSample) (shift sources : Nat) : Prop :=
  ∀ b j, DocumentStart batch b j → j < b + shift → shift ≤ j → j < sources + shift →
    batch.lossMask.getD j 0 = 0

/-- Shifting by `shift` crosses no document exactly when the heads are masked. -/
theorem shift_iff (batch : PackedSample) (shift sources : Nat) :
    (∀ t < sources, batch.lossMask.getD (t + shift) 0 ≠ 0 → SameDocument batch t (t + shift)) ↔
      HeadsMasked batch shift sources := by
  constructor
  · intro within b j start near reach source
    by_contra trained
    obtain ⟨t, rfl⟩ := Nat.exists_eq_add_of_le' reach
    have crosses := (crosses_iff (Nat.le_add_right t shift) trained).mpr ⟨b, by omega, start⟩
    exact crosses (within t (by omega) trained)
  · intro masked t source trained
    by_contra apart
    obtain ⟨b, between, start⟩ := (crosses_iff (Nat.le_add_right t shift) trained).mp apart
    exact trained (masked b (t + shift) start (by omega) (Nat.le_add_left _ _) (by omega))

section Anchors

variable {lossMask : List ℚ} {numAnchors blockSize : Nat} {perm anchors : List Nat} {anchorValid : List Bool}

theorem mem_validIndices {p : Nat} : p ∈ validIndices lossMask blockSize ↔
    p < lossMask.length - blockSize ∧ lossMask.getD p 0 ≠ 0 := by
  simp [validIndices]

/-- A block marked valid is anchored where it was drawn, the others at 0. -/
theorem selectAnchors_zip (permutes : perm.Perm (List.range (validIndices lossMask blockSize).length))
    (selected : selectAnchors lossMask numAnchors blockSize perm = some (anchors, anchorValid)) :
    anchors.length = anchorValid.length ∧
      ∀ p valid, (p, valid) ∈ anchors.zip anchorValid →
        if valid then p ∈ validIndices lossMask blockSize else p = 0 := by
  obtain ⟨-, drawn, picked, rfl, rfl⟩ := selectAnchors_eq_some_iff.mp selected
  have drawn_size : (drawn.insertionSort (· ≤ ·)).length =
      (List.replicate (min numAnchors (validIndices lossMask blockSize).length) true).length := by
    rw [length_sortedDraw permutes picked, List.length_replicate]
  constructor
  · rw [List.length_append, List.length_append, drawn_size, List.length_replicate, List.length_replicate,
      List.length_replicate]
  · intro p valid member
    rw [List.zip_append drawn_size] at member
    rcases List.mem_append.mp member with front | padded
    · obtain ⟨here, marked⟩ := List.of_mem_zip front
      rw [List.eq_of_mem_replicate marked, if_pos rfl]
      have source : p ∈ drawn := List.mem_insertionSort _ |>.mp here
      obtain ⟨i, bound, rfl⟩ := List.mem_iff_getElem.mp source
      have row := gather_get picked i
      rw [List.getElem?_eq_getElem bound] at row
      obtain ⟨k, -, held⟩ := Option.bind_eq_some_iff.mp row.symm
      exact List.mem_of_getElem? held
    · obtain ⟨here, marked⟩ := List.of_mem_zip padded
      rw [List.eq_of_mem_replicate marked, List.eq_of_mem_replicate here]
      simp

/-- The weight of a slot: that of its position, unless the block is padded or the slot is the
anchor's own and not sampled from. -/
def slotWeight (sampleFromAnchor : Bool) (m : ℚ) (valid : Bool) (k : Nat) : ℚ :=
  if sampleFromAnchor = false ∧ k = 0 then 0 else m * if valid then 1 else 0

theorem masked_blocks (m : Nat → ℚ) (sizes : anchors.length = anchorValid.length) :
    List.zipWith (· * ·) (anchors.flatMap fun p => (List.range blockSize).map fun k => m (p + k))
        (anchorValid.flatMap fun valid => List.replicate blockSize (if valid then (1 : ℚ) else 0)) =
      (anchors.zip anchorValid).flatMap fun block => (List.range blockSize).map fun k =>
        m (block.1 + k) * if block.2 then 1 else 0 := by
  induction anchors generalizing anchorValid with
  | nil => rfl
  | cons p anchors ih =>
    obtain ⟨valid, anchorValid, rfl⟩ := List.exists_cons_of_length_eq_add_one sizes.symm
    rw [List.flatMap_cons, List.flatMap_cons, List.zipWith_append (by simp), ih (by simpa using sizes),
      List.zip_cons_cons, List.flatMap_cons]
    congr 1
    apply List.ext_getElem
    · simp
    · intro k _ _
      simp

/-- Zeroing the first slot of every block. -/
theorem mapIdx_blocks {β : Type*} (blockSize : Nat) (blocks : List β) (slots : β → Nat → ℚ) :
    (blocks.flatMap fun block => (List.range blockSize).map (slots block)).mapIdx
        (fun i m => if i % blockSize = 0 then 0 else m) =
      blocks.flatMap fun block => (List.range blockSize).map fun k => if k = 0 then 0 else slots block k := by
  induction blocks with
  | nil => rfl
  | cons block blocks ih =>
    rw [List.flatMap_cons, List.flatMap_cons, List.mapIdx_append, ← ih]
    congr 1
    · apply List.ext_getElem
      · simp
      · intro k _ bound
        have inside : k < blockSize := by simpa using bound
        simp [Nat.mod_eq_of_lt inside]
    · simp

theorem alignMask_blocks (sampleFromAnchor : Bool) (m : Nat → ℚ) (sizes : anchors.length = anchorValid.length) :
    alignMask sampleFromAnchor blockSize
        (anchors.flatMap fun p => (List.range blockSize).map fun k => m (p + k)) anchorValid =
      (anchors.zip anchorValid).flatMap fun block => (List.range blockSize).map fun k =>
        slotWeight sampleFromAnchor (m (block.1 + k)) block.2 k := by
  rw [alignMask, masked_blocks m sizes]
  cases sampleFromAnchor with
  | true => simp [slotWeight]
  | false =>
    have zeroed := mapIdx_blocks blockSize (anchors.zip anchorValid)
      (fun block k => m (block.1 + k) * if block.2 then 1 else 0)
    simpa [slotWeight] using zeroed

def blockPair (sampleFromAnchor : Bool) (lossMask : List ℚ) (block : Nat × Bool) (k : Nat) : ScoredPair :=
  ⟨block.1, block.1 + k, slotWeight sampleFromAnchor (lossMask.getD (block.1 + k) 0) block.2 k⟩

theorem zipWith_blocks (weights : Nat × Bool → Nat → ℚ) (sizes : anchors.length = anchorValid.length) :
    List.zipWith (fun source slot => (⟨source, slot.1, slot.2⟩ : ScoredPair))
        (anchors.flatMap fun p => List.replicate blockSize p)
        ((getBaseIndicesForAnchoredBlocks anchors blockSize).zip
          ((anchors.zip anchorValid).flatMap fun block => (List.range blockSize).map (weights block))) =
      (anchors.zip anchorValid).flatMap fun block => (List.range blockSize).map fun k =>
        ⟨block.1, block.1 + k, weights block k⟩ := by
  induction anchors generalizing anchorValid with
  | nil => rfl
  | cons p anchors ih =>
    obtain ⟨valid, anchorValid, rfl⟩ := List.exists_cons_of_length_eq_add_one sizes.symm
    have count : anchors.length = anchorValid.length := by simpa using sizes
    have rest := ih count
    rw [getBaseIndicesForAnchoredBlocks] at rest ⊢
    rw [List.zip_cons_cons, List.flatMap_cons, List.flatMap_cons, List.flatMap_cons, List.flatMap_cons,
      List.zip_append (by simp), List.zipWith_append (by simp), rest]
    congr 1
    apply List.ext_getElem
    · simp
    · intro k _ _
      simp

theorem gather_slots {indices : List Nat} (inside : ∀ i ∈ indices, i < lossMask.length) :
    gather lossMask indices = some (indices.map fun i => lossMask.getD i 0) := by
  apply mapM_some
  intro i member
  rw [List.getD_eq_getElem?_getD, List.getElem?_eq_getElem (inside i member), Option.getD_some]

/-- Where the forward does not raise, the pairs are those of the slots of all blocks. -/
theorem blockPairs_eq (sampleFromAnchor : Bool)
    (permutes : perm.Perm (List.range (validIndices lossMask blockSize).length))
    (selected : selectAnchors lossMask numAnchors blockSize perm = some (anchors, anchorValid)) :
    blockPairs sampleFromAnchor blockSize numAnchors perm lossMask =
      if ∀ i ∈ getBaseIndicesForAnchoredBlocks anchors blockSize, i < lossMask.length then
        some ((anchors.zip anchorValid).flatMap fun block =>
          (List.range blockSize).map (blockPair sampleFromAnchor lossMask block))
      else none := by
  have sizes := (selectAnchors_zip permutes selected).1
  rw [blockPairs, selected]
  split
  next inside =>
    have slots : ((getBaseIndicesForAnchoredBlocks anchors blockSize).map fun i => lossMask.getD i 0) =
        anchors.flatMap fun p => (List.range blockSize).map fun k => lossMask.getD (p + k) 0 := by
      simp [getBaseIndicesForAnchoredBlocks, List.map_flatMap, Function.comp_def]
    simp only [Option.bind_eq_bind, Option.bind_some, gather_slots inside, slots,
      alignMask_blocks sampleFromAnchor (fun i => lossMask.getD i 0) sizes]
    exact congrArg some (zipWith_blocks _ sizes)
  next outside =>
    have raises : gather lossMask (getBaseIndicesForAnchoredBlocks anchors blockSize) = none := by
      rw [← Option.not_isSome_iff_eq_none]
      exact mt gather_isSome.mp outside
    simp [raises]

end Anchors

def Architecture.Draws (arch : Architecture) (lossMask : List ℚ) : Prop :=
  match arch with
  | .block _ blockSize _ perm => perm.Perm (List.range (validIndices lossMask blockSize).length)
  | .eagle3 .. => True
  | .mtp .. => True

/-- The condition on the loss mask near document starts, for each architecture. -/
def StartsMasked (arch : Architecture) (batch : PackedSample) : Prop :=
  match arch with
  | .block _ blockSize numAnchors perm => ∀ anchors anchorValid,
      selectAnchors batch.lossMask numAnchors blockSize perm = some (anchors, anchorValid) →
      ∀ p, (p, true) ∈ anchors.zip anchorValid → ∀ b j, DocumentStart batch b j → p < b →
        j < p + blockSize → batch.lossMask.getD j 0 = 0
  | .eagle3 tttSteps tttStepLossDecay => tttStepLossDecay = 0 ∨
      ∀ b j, DocumentStart batch b j → j + 1 < b + tttSteps → batch.lossMask.getD j 0 = 0
  | .mtp numSteps stepWeights => (stepWeights.any fun weights => weights.length != numSteps) = true ∨
      ∀ step < effectiveSteps numSteps batch.lossMask.length, mtpStepWeight stepWeights step ≠ 0 →
        HeadsMasked batch (step + 2) (validLen numSteps batch.lossMask.length)

theorem trained_lt {lossMask : List ℚ} {j : Nat} (trained : lossMask.getD j 0 ≠ 0) : j < lossMask.length := by
  by_contra outside
  apply trained
  rw [List.getD_eq_getElem?_getD, List.getElem?_eq_none (Nat.not_lt.mp outside), Option.getD_none]

theorem eagle3_iff (tttSteps : Nat) (tttStepLossDecay : ℚ) (batch : PackedSample) :
    WithinDocuments (.eagle3 tttSteps tttStepLossDecay) batch ↔
      StartsMasked (.eagle3 tttSteps tttStepLossDecay) batch := by
  constructor
  · intro within
    by_cases silent : tttStepLossDecay = 0
    · exact .inl silent
    · apply Or.inr
      intro b j start near
      by_contra trained
      have positive := start.positive
      have before := start.before
      have inside := trained_lt trained
      -- The step that reaches from the position in front of the document's start to `j`.
      have apart := (crosses_iff (by omega : b - 1 ≤ j) trained).mpr ⟨b, by omega, start⟩
      have reach : b - 1 + (j - (b - 1)) = j := by omega
      apply apart
      apply within _ rfl ⟨b - 1, j, batch.lossMask.getD j 0 * tttStepLossDecay ^ (j - (b - 1))⟩
      · apply List.mem_flatMap.mpr
        refine ⟨j - (b - 1), List.mem_range.mpr (by omega), List.mem_map.mpr ?_⟩
        exact ⟨b - 1, List.mem_range.mpr (by omega), by rw [reach]⟩
      · exact mul_ne_zero trained (pow_ne_zero _ silent)
  · intro masked pairs given pair member weighs
    cases given
    obtain ⟨step, bound, row⟩ := List.mem_flatMap.mp member
    obtain ⟨i, -, rfl⟩ := List.mem_map.mp row
    have trained := left_ne_zero_of_mul weighs
    by_contra apart
    obtain ⟨b, between, start⟩ := (crosses_iff (Nat.le_add_right i step) trained).mp apart
    have first := List.mem_range.mp bound
    rcases masked with silent | masked
    · have shifted : step ≠ 0 := by
        have before := start.before
        omega
      exact weighs (by rw [silent, zero_pow shifted, mul_zero])
    · exact trained (masked b _ start (by omega))

theorem mtp_iff (numSteps : Nat) (stepWeights : Option (List ℚ)) (batch : PackedSample) :
    WithinDocuments (.mtp numSteps stepWeights) batch ↔ StartsMasked (.mtp numSteps stepWeights) batch := by
  unfold WithinDocuments StartsMasked Architecture.scoredPairs mtpPairs
  by_cases refused : (stepWeights.any fun weights => weights.length != numSteps) = true
  · simp [refused]
  · simp only [refused, Bool.false_eq_true, if_false, Option.some.injEq, forall_eq', false_or, ← shift_iff]
    constructor
    · intro within step bound weighs t source trained
      apply within _ (List.mem_flatMap.mpr ⟨step, List.mem_range.mpr bound,
        List.mem_map.mpr ⟨t, List.mem_range.mpr source, rfl⟩⟩)
      rw [← Nat.add_assoc] at trained
      rwa [if_neg trained]
    · intro masked pair member weighs
      obtain ⟨step, bound, row⟩ := List.mem_flatMap.mp member
      obtain ⟨t, source, rfl⟩ := List.mem_map.mp row
      have trained : batch.lossMask.getD (t + step + 2) 0 ≠ 0 := by
        intro ignored
        exact weighs (if_pos ignored)
      rw [if_neg trained] at weighs
      exact masked step (List.mem_range.mp bound) weighs t (List.mem_range.mp source) trained

/-- No slot of a drawn or padded block lies behind the sample's end. -/
theorem slots_inside {lossMask : List ℚ} {numAnchors blockSize p : Nat} {perm anchors : List Nat}
    {anchorValid : List Bool} (permutes : perm.Perm (List.range (validIndices lossMask blockSize).length))
    (selected : selectAnchors lossMask numAnchors blockSize perm = some (anchors, anchorValid))
    (valid : p ∈ validIndices lossMask blockSize) :
    ∀ i ∈ getBaseIndicesForAnchoredBlocks anchors blockSize, i < lossMask.length := by
  obtain ⟨sizes, drawn⟩ := selectAnchors_zip permutes selected
  obtain ⟨room, -⟩ := mem_validIndices.mp valid
  intro i member
  obtain ⟨q, here, slot⟩ := List.mem_flatMap.mp member
  obtain ⟨k, bound, rfl⟩ := List.mem_map.mp slot
  have offset := List.mem_range.mp bound
  obtain ⟨n, inside, rfl⟩ := List.mem_iff_getElem.mp here
  have chosen := drawn anchors[n] (anchorValid[n]) (List.mem_iff_getElem.mpr
    ⟨n, by rw [List.length_zip]; omega, List.getElem_zip⟩)
  split at chosen
  · obtain ⟨low, -⟩ := mem_validIndices.mp chosen
    omega
  · omega

theorem block_iff {sampleFromAnchor : Bool} {blockSize numAnchors : Nat} {perm : List Nat} {batch : PackedSample}
    (draws : (Architecture.block sampleFromAnchor blockSize numAnchors perm).Draws batch.lossMask) :
    WithinDocuments (.block sampleFromAnchor blockSize numAnchors perm) batch ↔
      StartsMasked (.block sampleFromAnchor blockSize numAnchors perm) batch := by
  constructor
  · intro within anchors anchorValid selected p chosen b j start behind near
    by_contra trained
    have before := start.before
    have apart := (crosses_iff (behind.le.trans before) trained).mpr ⟨b, behind, start⟩
    have valid : p ∈ validIndices batch.lossMask blockSize := (selectAnchors_zip draws selected).2 p true chosen
    have pairs := blockPairs_eq sampleFromAnchor draws selected
    rw [if_pos (slots_inside draws selected valid)] at pairs
    have reach : p + (j - p) = j := by omega
    apply apart
    apply within _ pairs ⟨p, j, slotWeight sampleFromAnchor (batch.lossMask.getD j 0) true (j - p)⟩
    · apply List.mem_flatMap.mpr
      refine ⟨(p, true), chosen, List.mem_map.mpr ⟨j - p, List.mem_range.mpr (by omega), ?_⟩⟩
      rw [blockPair, reach]
    · have shifted : ¬ (sampleFromAnchor = false ∧ j - p = 0) := by omega
      rw [slotWeight, if_neg shifted, if_pos rfl, mul_one]
      exact trained
  · intro masked pairs given pair member weighs
    cases selected : selectAnchors batch.lossMask numAnchors blockSize perm with
    | none => simp [Architecture.scoredPairs, blockPairs, selected] at given
    | some drawn =>
      obtain ⟨anchors, anchorValid⟩ := drawn
      rw [Architecture.scoredPairs, blockPairs_eq sampleFromAnchor draws selected] at given
      split at given
      next inside =>
        cases given
        obtain ⟨⟨p, valid⟩, chosen, slot⟩ := List.mem_flatMap.mp member
        obtain ⟨k, bound, rfl⟩ := List.mem_map.mp slot
        have offset := List.mem_range.mp bound
        simp only [blockPair, slotWeight] at weighs ⊢
        split at weighs
        next => exact absurd rfl weighs
        next =>
          cases valid with
          | false => exact absurd (mul_zero _) weighs
          | true =>
            have trained := left_ne_zero_of_mul weighs
            by_contra apart
            obtain ⟨b, between, start⟩ := (crosses_iff (Nat.le_add_right p k) trained).mp apart
            exact trained (masked anchors anchorValid selected p chosen b _ start between (by omega))
      next => exact absurd given (Option.some_ne_none pairs).symm

def twoDocuments (first : ℚ) : PackedSample := collate 8 [[1, 1, 1], [first, 1, 1]]

theorem twoDocuments_ids (first : ℚ) : (twoDocuments first).documentIds = [0, 0, 0, 1, 1, 1, -1, -1] := rfl

theorem twoDocuments_mask (first : ℚ) : (twoDocuments first).lossMask = [1, 1, 1, first, 1, 1, 0, 0] := rfl

end DreamAifd.Supervision
