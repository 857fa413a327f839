import DreamAifd.Gather
import DreamAifd.Segments

/-! Feature distillation in the anchored-block drafter. The drafter works in slots, one block
of slots for every anchor; the target's rows and the loss mask arrive in sequence positions.
`anchored_block_indices` holds the position of every slot. -/
namespace DreamAifd.AnchoredBlocks

open Gather

/-- Positions of the slots: `block_size` consecutive ones from every anchor on. -/
def getBaseIndicesForAnchoredBlocks (anchorPositions : List Nat) (blockSize : Nat) : List Nat :=
  anchorPositions.flatMap fun p => (List.range blockSize).map (p + ·)

theorem length_baseIndices (anchors : List Nat) (blockSize : Nat) :
    (getBaseIndicesForAnchoredBlocks anchors blockSize).length = anchors.length * blockSize := by
  induction anchors with
  | nil => simp [getBaseIndicesForAnchoredBlocks]
  | cons p anchors ih =>
    rw [getBaseIndicesForAnchoredBlocks] at ih
    simp [getBaseIndicesForAnchoredBlocks, ih, Nat.succ_mul, Nat.add_comm]

theorem baseIndices_inj {blockSize : Nat} (positive : 0 < blockSize) {anchors others : List Nat} :
    getBaseIndicesForAnchoredBlocks anchors blockSize =
      getBaseIndicesForAnchoredBlocks others blockSize ↔ anchors = others := by
  refine ⟨fun same => ?_, fun same => same ▸ rfl⟩
  have sizes := congrArg List.length same
  rw [length_baseIndices, length_baseIndices] at sizes
  have count : anchors.length = others.length := Nat.eq_of_mul_eq_mul_right positive sizes
  induction anchors generalizing others with
  | nil => exact (List.eq_nil_of_length_eq_zero count.symm).symm
  | cons p anchors ih =>
    obtain ⟨q, others, rfl⟩ := List.exists_cons_of_length_eq_add_one count.symm
    obtain ⟨block, rest⟩ := List.append_inj same (by simp)
    have first := congrArg (·[0]?) block
    simp only [List.getElem?_map, List.getElem?_range positive, Option.map_some, Nat.add_zero,
      Option.some.injEq] at first
    have count' : anchors.length = others.length := by simpa using count
    rw [first, ih rest (by rw [count']) count']

/-- Anchors at the multiples of the block size lay the slots out as the positions. -/
theorem baseIndices_multiples (blockSize numAnchors : Nat) :
    getBaseIndicesForAnchoredBlocks ((List.range numAnchors).map (· * blockSize)) blockSize =
      List.range (numAnchors * blockSize) := by
  induction numAnchors with
  | zero => simp [getBaseIndicesForAnchoredBlocks]
  | succ n ih =>
    rw [getBaseIndicesForAnchoredBlocks] at ih ⊢
    simp [List.range_succ, ih, Nat.succ_mul, List.range_add]

section Anchors

variable {α : Type*} [Zero α] [DecidableEq α]

/-- Positions with a loss, the last `block_size` ones excluded. -/
def validIndices (lossMask : List α) (blockSize : Nat) : List Nat :=
  (List.range (lossMask.length - blockSize)).filter fun i => lossMask.getD i 0 ≠ 0

/-- Anchors and their validity; `perm` is the random permutation drawn. `none` where it
raises. Blocks without a position to draw are anchored at 0 and marked invalid. -/
def selectAnchors (lossMask : List α) (numAnchors blockSize : Nat) (perm : List Nat) :
    Option (List Nat × List Bool) :=
  if blockSize = 0 then none
  else do
    let valid := validIndices lossMask blockSize
    let k := min numAnchors valid.length
    let drawn ← gather valid (perm.take k)
    some (drawn.insertionSort (· ≤ ·) ++ List.replicate (numAnchors - k) 0,
      List.replicate k true ++ List.replicate (numAnchors - k) false)

section Selected

variable {lossMask : List α} {numAnchors blockSize : Nat} {perm anchors : List Nat} {anchorValid : List Bool}

/-- A drawing that returns: the sorted positions, and behind them blocks at 0. -/
theorem selectAnchors_eq_some_iff :
    selectAnchors lossMask numAnchors blockSize perm = some (anchors, anchorValid) ↔ 0 < blockSize ∧
      ∃ drawn, gather (validIndices lossMask blockSize)
          (perm.take (min numAnchors (validIndices lossMask blockSize).length)) = some drawn ∧
        anchors = drawn.insertionSort (· ≤ ·) ++
          List.replicate (numAnchors - min numAnchors (validIndices lossMask blockSize).length) 0 ∧
        anchorValid = List.replicate (min numAnchors (validIndices lossMask blockSize).length) true ++
          List.replicate (numAnchors - min numAnchors (validIndices lossMask blockSize).length) false := by
  rw [selectAnchors]
  split
  next none => simp [none]
  next some =>
    have positive := Nat.pos_of_ne_zero some
    simp only [positive, true_and, Option.bind_eq_bind, Option.bind_eq_some_iff, Option.some.injEq, Prod.mk.injEq]
    exact exists_congr fun drawn => and_congr_right fun _ => and_congr eq_comm eq_comm

theorem length_sortedDraw {drawn : List Nat}
    (permutes : perm.Perm (List.range (validIndices lossMask blockSize).length))
    (picked : gather (validIndices lossMask blockSize)
      (perm.take (min numAnchors (validIndices lossMask blockSize).length)) = some drawn) :
    (drawn.insertionSort (· ≤ ·)).length = min numAnchors (validIndices lossMask blockSize).length := by
  have count := permutes.length_eq
  rw [List.length_range] at count
  rw [List.length_insertionSort, gather_length picked, List.length_take, count]
  omega

theorem selectAnchors_some (permutes : perm.Perm (List.range (validIndices lossMask blockSize).length))
    (selected : selectAnchors lossMask numAnchors blockSize perm = some (anchors, anchorValid)) :
    0 < blockSize ∧ anchors.length = numAnchors ∧ anchorValid.length = numAnchors ∧
      ∀ j, (validIndices lossMask blockSize).length ≤ j → j < numAnchors → anchors[j]? = some 0 := by
  obtain ⟨positive, drawn, picked, rfl, rfl⟩ := selectAnchors_eq_some_iff.mp selected
  have size := length_sortedDraw permutes picked
  refine ⟨positive, ?_, ?_, fun j low high => ?_⟩
  · rw [List.length_append, size, List.length_replicate]
    omega
  · simp
  · rw [List.getElem?_append_right (by omega), List.getElem?_replicate, if_pos (by omega)]

end Selected

end Anchors

/-! The draft transformer up to the draft logits. Its modules are parameters. -/

/-- What every draft layer receives beside its input; the attention masks are built from the
anchors and the document ids. -/
structure LayerInputs (ρ : Type*) where
  targetHidden : List ρ
  anchorPositions : List Nat
  documentIds : List Int
  positionIds : List Nat

structure DraftModel (η ρ ω : Type*) where
  blockSize : Nat
  sampleFromAnchor : Bool
  /-- One-based layer supervised in place of the last one; -1 for none. -/
  aifdDraftLayer : Int
  maskTokenId : Nat
  embedTokens : Nat → ρ
  /-- `hidden_norm` after `fc`. -/
  fc : η → ρ
  layers : List (LayerInputs ρ → List ρ → List ρ)
  norm : ρ → ρ
  lmHead : ρ → ω
  /-- `verifier_lm_head` after `verifier_norm`. -/
  verifierLmHead : ρ → ω
  rows : ∀ layer ∈ layers, ∀ inputs noise, (layer inputs noise).length = noise.length

structure Sample (α η ρ : Type*) where
  hiddenStates : List η
  inputIds : List Nat
  lossMask : List α
  verifierLastHiddenStates : List ρ
  documentIds : List Int
  positionIds : Option (List Nat)
  masked : lossMask.length = hiddenStates.length

structure BackboneOutput (α ρ ω : Type*) where
  hidden : List ρ
  logits : List ω
  targets : List ω
  alignedLossMask : List α
  anchoredBlockIndices : List Nat
  aifdPred : Option (List ρ)

section Backbone

variable {α η ρ ω : Type}

/-- `mask_token_ids`, the anchors' own tokens written to the first slot of every block. -/
def blockTokens (maskTokenId blockSize : Nat) (anchorTokens : List Nat) : List Nat :=
  anchorTokens.flatMap fun token => token :: List.replicate (blockSize - 1) maskTokenId

def runLayers (aifdDraftLayer : Int) (inputs : LayerInputs ρ) :
    Nat → List (LayerInputs ρ → List ρ → List ρ) → List ρ → Option (List ρ) →
      List ρ × Option (List ρ)
  | _, [], noise, aifdPred => (noise, aifdPred)
  | layerIdx, layer :: layers, noise, aifdPred =>
    let noise := layer inputs noise
    runLayers aifdDraftLayer inputs (layerIdx + 1) layers noise
      (if aifdDraftLayer = layerIdx + 1 then some noise else aifdPred)

theorem runLayers_rows (aifdDraftLayer : Int) {inputs : LayerInputs ρ} {n : Nat}
    (layers : List (LayerInputs ρ → List ρ → List ρ))
    (rows : ∀ layer ∈ layers, ∀ inputs noise, (layer inputs noise).length = noise.length)
    (layerIdx : Nat) {noise : List ρ} (aifdPred : Option (List ρ)) (size : noise.length = n)
    (pred : ∀ p, aifdPred = some p → p.length = n) :
    (runLayers aifdDraftLayer inputs layerIdx layers noise aifdPred).1.length = n ∧
      ∀ p, (runLayers aifdDraftLayer inputs layerIdx layers noise aifdPred).2 = some p →
        p.length = n := by
  induction layers generalizing layerIdx noise aifdPred with
  | nil => exact ⟨size, pred⟩
  | cons layer layers ih =>
    have size' : (layer inputs noise).length = n := (rows layer (by simp) inputs noise).trans size
    refine ih (fun other member => rows other (List.mem_cons_of_mem _ member)) _ _ size' ?_
    intro p taken
    split at taken
    · cases taken; exact size'
    · exact pred p taken

variable [MulZeroOneClass α]

/-- Loss mask of the slots: padded blocks count nothing, nor does the anchor's own slot
unless the drafter samples from it. -/
def alignMask (sampleFromAnchor : Bool) (blockSize : Nat) (gathered : List α)
    (anchorValid : List Bool) : List α :=
  let masked := List.zipWith (· * ·) gathered
    (anchorValid.flatMap fun valid => List.replicate blockSize (if valid then 1 else 0))
  if sampleFromAnchor then masked
  else masked.mapIdx fun i m => if i % blockSize = 0 then 0 else m

def roll {β : Type*} (rows : List β) : List β := rows.rotateRight 1

variable [DecidableEq α]

def backboneForward (model : DraftModel η ρ ω) (sample : Sample α η ρ) (numAnchors : Nat)
    (perm : List Nat) : Option (BackboneOutput α ρ ω) := do
  let positionIds := sample.positionIds.getD (List.range sample.hiddenStates.length)
  let (anchorPositions, anchorValid) ←
    selectAnchors sample.lossMask numAnchors model.blockSize perm
  let anchorTokens ← gather sample.inputIds anchorPositions
  let noiseEmbedding :=
    (blockTokens model.maskTokenId model.blockSize anchorTokens).map model.embedTokens
  let anchorIds ← gather positionIds anchorPositions
  let maskPositionIds := getBaseIndicesForAnchoredBlocks anchorIds model.blockSize
  let anchoredBlockIndices := getBaseIndicesForAnchoredBlocks anchorPositions model.blockSize
  let verifierLogits := sample.verifierLastHiddenStates.map model.verifierLmHead
  let verifierLogits := if model.sampleFromAnchor then verifierLogits else roll verifierLogits
  let targets ← gather verifierLogits anchoredBlockIndices
  let (noise, aifdPred) := runLayers model.aifdDraftLayer {
    targetHidden := sample.hiddenStates.map model.fc
    anchorPositions, documentIds := sample.documentIds
    positionIds := positionIds ++ maskPositionIds } 0 model.layers noiseEmbedding none
  let hidden := noise.map model.norm
  let gathered ← gather sample.lossMask anchoredBlockIndices
  some {
    hidden, logits := hidden.map model.lmHead, targets
    alignedLossMask := alignMask model.sampleFromAnchor model.blockSize gathered anchorValid
    anchoredBlockIndices, aifdPred }

theorem length_blockTokens {maskTokenId blockSize : Nat} (positive : 0 < blockSize)
    (anchorTokens : List Nat) :
    (blockTokens maskTokenId blockSize anchorTokens).length = anchorTokens.length * blockSize := by
  have block : blockSize - 1 + 1 = blockSize := Nat.sub_add_cancel positive
  simp [blockTokens, List.length_flatMap, block]

/-- What a returning backbone went through. -/
structure Backbone (model : DraftModel η ρ ω) (sample : Sample α η ρ) (numAnchors : Nat)
    (perm : List Nat) (out : BackboneOutput α ρ ω) (anchors : List Nat) : Prop where
  selected : ∃ anchorValid,
    selectAnchors sample.lossMask numAnchors model.blockSize perm = some (anchors, anchorValid)
  indices : out.anchoredBlockIndices = getBaseIndicesForAnchoredBlocks anchors model.blockSize
  inside : ∀ i ∈ out.anchoredBlockIndices, i < sample.hiddenStates.length
  hidden : out.hidden.length = numAnchors * model.blockSize
  aifdPred : ∀ p, out.aifdPred = some p → p.length = numAnchors * model.blockSize
  mask : out.alignedLossMask.length = numAnchors * model.blockSize

theorem backboneForward_some {model : DraftModel η ρ ω} {sample : Sample α η ρ}
    {numAnchors : Nat} {perm : List Nat} {out : BackboneOutput α ρ ω}
    (permutes : perm.Perm
      (List.range (validIndices sample.lossMask model.blockSize).length))
    (ran : backboneForward model sample numAnchors perm = some out) :
    ∃ anchors, Backbone model sample numAnchors perm out anchors := by
  obtain ⟨⟨anchors, anchorValid⟩, selected, ran⟩ := Option.bind_eq_some_iff.mp ran
  obtain ⟨anchorTokens, tokens, ran⟩ := Option.bind_eq_some_iff.mp ran
  obtain ⟨anchorIds, ids, ran⟩ := Option.bind_eq_some_iff.mp ran
  obtain ⟨targets, aimed, ran⟩ := Option.bind_eq_some_iff.mp ran
  obtain ⟨gathered, weighed, ran⟩ := Option.bind_eq_some_iff.mp ran
  obtain ⟨positive, count, validCount, -⟩ := selectAnchors_some permutes selected
  have tokenCount := gather_length tokens
  have gatheredCount := gather_length weighed
  rw [length_baseIndices, count] at gatheredCount
  have noiseRows : ((blockTokens model.maskTokenId model.blockSize anchorTokens).map
      model.embedTokens).length = numAnchors * model.blockSize := by
    rw [List.length_map, length_blockTokens positive, tokenCount, count]
  obtain ⟨layersRows, predRows⟩ := runLayers_rows model.aifdDraftLayer model.layers model.rows 0 none
    noiseRows (by simp)
  cases ran
  refine ⟨anchors, ⟨anchorValid, selected⟩, rfl, ?_, ?_, predRows, ?_⟩
  · rw [← sample.masked]
    exact gather_isSome.mp (Option.isSome_iff_exists.mpr ⟨_, weighed⟩)
  · rw [List.length_map]
    exact layersRows
  · unfold alignMask
    dsimp only
    split <;> simp [List.length_flatMap, gatheredCount, validCount]

end Backbone

section Loss

variable {α η ρ : Type} [Field α] [LinearOrder α] {features : Nat}

/-- The rows the loss compares, slot by slot, and the weight of each comparison. -/
def comparedRows {β γ μ : Type} (draftHidden : List β) (aifdHiddenStates : List γ)
    (alignedLossMask : List μ) (anchoredBlockIndices : List Nat) : Option (List (β × γ × μ)) := do
  let pred ← gather draftHidden anchoredBlockIndices
  let tgt ← gather aifdHiddenStates anchoredBlockIndices
  some (pred.zip (tgt.zip alignedLossMask))

def rmsNorm (rsqrt : α → α) (x : Fin features → α) : Fin features → α :=
  fun i => x i * rsqrt ((∑ j, x j ^ 2) / features + 1 / 10 ^ 6)

def smoothL1 (x y : α) : α :=
  let d := |x - y|
  if d < 1 then d ^ 2 / 2 else d - 1 / 2

structure AifdLoss (α : Type) where
  loss : α
  aifdLossSum : α
  aifdLossTotal : α

def rowLoss (rsqrt : α → α) (norm : Bool) (pred tgt : Fin features → α) : α :=
  let pred := if norm then rmsNorm rsqrt pred else pred
  let tgt := if norm then rmsNorm rsqrt tgt else tgt
  (∑ d, smoothL1 (pred d) (tgt d)) / features

def computeAifdLoss (rsqrt : α → α) (draftHidden aifdHiddenStates : List (Fin features → α))
    (alignedLossMask : List α) (anchoredBlockIndices : List Nat) (norm : Bool) :
    Option (AifdLoss α) := do
  let rows ← comparedRows draftHidden aifdHiddenStates alignedLossMask anchoredBlockIndices
  let aifdSum := (rows.map fun (pred, tgt, m) => rowLoss rsqrt norm pred tgt * m).sum
  let aifdTotal := max alignedLossMask.sum 1
  some ⟨aifdSum / aifdTotal, aifdSum, aifdTotal⟩

/-- A forward with its distillation term. The head's own loss is a parameter, which is where
the two drafters of the family differ. -/
def forward {η ω : Type} (rsqrt : α → α) (headLoss : BackboneOutput α (Fin features → α) ω → α)
    (model : DraftModel η (Fin features → α) ω) (sample : Sample α η (Fin features → α))
    (numAnchors : Nat) (perm : List Nat) (aifdHiddenStates : Option (List (Fin features → α)))
    (aifdWeight : α) (aifdNorm : Bool) : Option (α × Option (AifdLoss α)) := do
  let out ← backboneForward model sample numAnchors perm
  let loss := headLoss out
  match aifdHiddenStates with
  | some aifdHiddenStates =>
    if 0 < aifdWeight then do
      let aifd ← computeAifdLoss rsqrt (out.aifdPred.getD out.hidden) aifdHiddenStates
        out.alignedLossMask out.anchoredBlockIndices aifdNorm
      some (loss + aifdWeight * aifd.loss, some aifd)
    else some (loss, none)
  | none => some (loss, none)

/-- Every draft of the backbone's shape is compared slot by slot: row `i` of the draft with
the target row of the position of slot `i`, under the mask of slot `i`. -/
def SlotAligned {ω : Type} (model : DraftModel η ρ ω) (sample : Sample α η ρ) (numAnchors : Nat)
    (out : BackboneOutput α ρ ω) : Prop :=
  ∀ draft target : List ρ, draft.length = numAnchors * model.blockSize →
    target.length = sample.hiddenStates.length →
    ∃ rows, comparedRows draft target out.alignedLossMask out.anchoredBlockIndices = some rows ∧
      rows.length = numAnchors * model.blockSize ∧
      ∀ (i : Nat) (row : ρ × ρ × α), rows[i]? = some row →
        draft[i]? = some row.1 ∧
        out.anchoredBlockIndices[i]?.bind (target[·]?) = some row.2.1 ∧
        out.alignedLossMask[i]? = some row.2.2

theorem comparedRows_some {β γ μ : Type} {draft : List β} {target : List γ} {mask : List μ}
    {idx : List Nat} {rows : List (β × γ × μ)}
    (compared : comparedRows draft target mask idx = some rows) :
    ∃ pred tgt, gather draft idx = some pred ∧ gather target idx = some tgt ∧
      rows = pred.zip (tgt.zip mask) := by
  obtain ⟨pred, first, compared⟩ := Option.bind_eq_some_iff.mp compared
  obtain ⟨tgt, second, compared⟩ := Option.bind_eq_some_iff.mp compared
  cases compared
  exact ⟨pred, tgt, first, second, rfl⟩

theorem slotAligned_iff {ω : Type} {model : DraftModel η (Fin features → α) ω}
    {sample : Sample α η (Fin features → α)} {numAnchors : Nat} {perm anchors : List Nat}
    {anchorValid : List Bool} {out : BackboneOutput α (Fin features → α) ω} (wide : 0 < features)
    (permutes : perm.Perm (List.range (validIndices sample.lossMask model.blockSize).length))
    (selected : selectAnchors sample.lossMask numAnchors model.blockSize perm =
      some (anchors, anchorValid))
    (ran : backboneForward model sample numAnchors perm = some out) :
    SlotAligned model sample numAnchors out ↔
      anchors = (List.range numAnchors).map (· * model.blockSize) := by
  have : Nonempty (Fin features) := ⟨⟨0, wide⟩⟩
  obtain ⟨same, backbone⟩ := backboneForward_some permutes ran
  obtain ⟨_, selected'⟩ := backbone.selected
  obtain rfl : anchors = same := by
    rw [selected] at selected'
    exact (Prod.mk.inj (Option.some.inj selected')).1
  obtain ⟨positive, count, -, -⟩ := selectAnchors_some permutes selected
  have size : out.anchoredBlockIndices.length = numAnchors * model.blockSize := by
    rw [backbone.indices, length_baseIndices, count]
  have straight : out.anchoredBlockIndices = List.range (numAnchors * model.blockSize) ↔
      anchors = (List.range numAnchors).map (· * model.blockSize) := by
    rw [backbone.indices, ← baseIndices_multiples, baseIndices_inj positive]
  rw [← straight, ← gather_self_iff (β := Fin features → α)]
  constructor
  · intro aligned draft shape
    obtain ⟨rows, compared, rowCount, slots⟩ := aligned draft
      (List.replicate sample.hiddenStates.length 0) shape List.length_replicate
    obtain ⟨pred, tgt, taken, _, rfl⟩ := comparedRows_some compared
    rw [taken]
    refine congrArg some (List.ext_getElem? fun i => ?_)
    by_cases bound : i < numAnchors * model.blockSize
    · have entry := slots i _ (List.getElem?_eq_getElem (rowCount ▸ bound))
      rw [entry.1, List.getElem_zip, List.getElem?_eq_getElem]
    · have predCount := gather_length taken
      rw [List.getElem?_eq_none (by omega), List.getElem?_eq_none (by omega)]
  · intro unchanged draft target shape targetShape
    have inside : (gather target out.anchoredBlockIndices).isSome :=
      gather_isSome.mpr fun i member => targetShape ▸ backbone.inside i member
    obtain ⟨tgt, aimed⟩ := Option.isSome_iff_exists.mp inside
    have tgtCount := gather_length aimed
    refine ⟨draft.zip (tgt.zip out.alignedLossMask), ?_, ?_, fun i row held => ?_⟩
    · simp only [comparedRows, unchanged draft shape, aimed, Option.bind_eq_bind, Option.bind_some]
    · simp [shape, tgtCount, size, backbone.mask]
    · obtain ⟨pred, rest⟩ := List.getElem?_zip_eq_some.mp held
      obtain ⟨aim, weight⟩ := List.getElem?_zip_eq_some.mp rest
      exact ⟨pred, gather_get aimed i ▸ aim, weight⟩

/-- With fewer positions to draw than anchors, the padded blocks crowd at position 0. -/
theorem padded_not_multiples {lossMask : List α} {numAnchors blockSize : Nat}
    {perm anchors : List Nat} {anchorValid : List Bool}
    (permutes : perm.Perm (List.range (validIndices lossMask blockSize).length))
    (selected : selectAnchors lossMask numAnchors blockSize perm = some (anchors, anchorValid))
    (padded : (validIndices lossMask blockSize).length < numAnchors) (many : 2 ≤ numAnchors) :
    anchors ≠ (List.range numAnchors).map (· * blockSize) := by
  rintro rfl
  obtain ⟨positive, -, -, zeros⟩ := selectAnchors_some permutes selected
  have last := zeros (numAnchors - 1) (by omega) (by omega)
  rw [List.getElem?_map, List.getElem?_range (by omega)] at last
  have product : (numAnchors - 1) * blockSize = 0 := by simpa using last
  rcases Nat.mul_eq_zero.mp product with none | none <;> omega

end Loss

/-- A drafter of one-feature rows without layers, blocks of one slot. -/
def plainDrafter : DraftModel Unit (Fin 1 → ℚ) Unit where
  blockSize := 1
  sampleFromAnchor := true
  aifdDraftLayer := -1
  maskTokenId := 0
  embedTokens token := fun _ => token
  fc _ := 0
  layers := []
  norm := id
  lmHead _ := ()
  verifierLmHead _ := ()
  rows := by simp

def threeTokens (lossMask : List ℚ) (masked : lossMask.length = 3) : Sample ℚ Unit (Fin 1 → ℚ) where
  hiddenStates := [(), (), ()]
  inputIds := [7, 8, 9]
  lossMask := lossMask
  verifierLastHiddenStates := [0, 0, 0]
  documentIds := [0, 0, 0]
  positionIds := none
  masked := masked

theorem slotAligned_fullSample : ∃ out,
    backboneForward plainDrafter (threeTokens [1, 1, 1] rfl) 2 [1, 0] = some out ∧
      SlotAligned plainDrafter (threeTokens [1, 1, 1] rfl) 2 out :=
  ⟨_, rfl, (slotAligned_iff (by decide) (by decide +kernel)
    (show selectAnchors [1, 1, 1] 2 1 [1, 0] = some ([0, 1], [true, true]) by decide +kernel)
    rfl).mpr (by decide)⟩

/-- One position to draw for two anchors: the drawn block sits at position 1, the padded one
at 0, and each is compared with the other's draft row. -/
theorem slotAligned_paddedBlock :
    ¬ ∀ (model : DraftModel Unit (Fin 1 → ℚ) Unit) (sample : Sample ℚ Unit (Fin 1 → ℚ))
      (numAnchors : Nat) (perm : List Nat) (out : BackboneOutput ℚ (Fin 1 → ℚ) Unit),
      perm.Perm (List.range (validIndices sample.lossMask model.blockSize).length) →
      backboneForward model sample numAnchors perm = some out →
      SlotAligned model sample numAnchors out := by
  intro claim
  have aligned := claim plainDrafter (threeTokens [0, 1, 1] rfl) 2 [0] _ (by decide +kernel) rfl
  obtain ⟨rows, compared, -, slots⟩ := aligned [fun _ => 10, fun _ => 20]
    [fun _ => 1, fun _ => 2, fun _ => 3] rfl rfl
  cases compared
  have first := (slots 0 _ rfl).1
  exact absurd (congrFun (Option.some.inj first) 0) (by decide +kernel)

end DreamAifd.AnchoredBlocks
