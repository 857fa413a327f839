import DreamAifd.AnchoredBlocks
import DreamAifd.Collate
import DreamAifd.MaskedLayers

/-! What a block of the anchored-block drafter depends on. The context rows and the slots of
all blocks form one sequence of keys; masks decide what each slot attends to. On top of the
backbone stand the heads of DSpark, which read the ground-truth tokens of the blocks. -/
namespace DreamAifd.BlockDrafting

open AnchoredBlocks Collate Gather MaskedLayers Segments

section AnchorBlockMaskMod

variable (documentIds : List Int) (totalSeqLen : Nat) (anchorPositions : List Nat) (blockSize : Nat)
  (slidingWindow : Option Int) (slidingWindowNonCausal : Bool)

def queryAnchorPositions : List Nat := anchorPositions.flatMap fun p => List.replicate blockSize p

/-- Tokens of the anchor's document in front of the anchor. -/
def basePrefixMod (qIdx kvIdx : Nat) : Bool :=
  let qAnchor := (queryAnchorPositions anchorPositions blockSize).getD qIdx 0
  let qDoc := documentIds[qAnchor]?
  let kvIsBase := decide (kvIdx < totalSeqLen)
  let kvBasePos := kvIdx % totalSeqLen
  let kvDoc := documentIds[kvBasePos]?
  let sameDoc := qDoc == kvDoc && qDoc != some (-1)
  let beforeAnchor := decide (kvBasePos < qAnchor)
  let inWindow := slidingWindow.all fun window => decide ((qAnchor : Int) - window ≤ kvBasePos)
  kvIsBase && sameDoc && beforeAnchor && inWindow

/-- Slots of the query's own block; under a causal window only those up to the query. -/
def sameBlockMod (qIdx kvIdx : Nat) : Bool :=
  let nonCausal := slidingWindow.isNone || slidingWindowNonCausal
  let qBlock := qIdx / blockSize
  let kvIsBlock := decide (totalSeqLen ≤ kvIdx)
  let kvBlock := (kvIdx - totalSeqLen) / blockSize
  kvIsBlock && qBlock == kvBlock && (nonCausal || decide (kvIdx ≤ qIdx + totalSeqLen))

def createAnchorBlockMaskMod (qIdx kvIdx : Nat) : Bool :=
  basePrefixMod documentIds totalSeqLen anchorPositions blockSize slidingWindow qIdx kvIdx ||
    sameBlockMod totalSeqLen blockSize slidingWindow slidingWindowNonCausal qIdx kvIdx

end AnchorBlockMaskMod

def positioned {ρ : Type*} (rows : List ρ) (positionIds : List Nat) : List (ρ × Nat) :=
  rows.mapIdx fun i row => (row, positionIds.getD i 0)

/-- A decoder layer: a row from the query with its position and from the keys it sees. -/
structure DecoderLayer (ρ : Type*) where
  slidingAttention : Bool
  forward : ρ × Nat → List (Option (ρ × Nat)) → ρ

structure BlockDrafter (η ρ ω : Type*) where
  blockSize : Nat
  sampleFromAnchor : Bool
  aifdDraftLayer : Int
  maskTokenId : Nat
  slidingWindow : Option Int
  slidingWindowNonCausal : Bool
  embedTokens : Nat → ρ
  fc : η → ρ
  layers : List (DecoderLayer ρ)
  norm : ρ → ρ
  lmHead : ρ → ω
  verifierLmHead : ρ → ω

namespace BlockDrafter

variable {η ρ ω : Type} (drafter : BlockDrafter η ρ ω)

/-- The keys are the context rows and the slots; the queries take the last position ids. -/
def layerForward (layer : DecoderLayer ρ) (inputs : LayerInputs ρ) (noise : List ρ) : List ρ :=
  let slidingWindow := if layer.slidingAttention then drafter.slidingWindow else none
  attendRows layer.forward
    (createAnchorBlockMaskMod inputs.documentIds inputs.targetHidden.length inputs.anchorPositions
      drafter.blockSize slidingWindow drafter.slidingWindowNonCausal)
    (positioned (inputs.targetHidden ++ noise) inputs.positionIds)
    (positioned noise (inputs.positionIds.drop (inputs.positionIds.length - noise.length)))

def draftModel : DraftModel η ρ ω where
  blockSize := drafter.blockSize
  sampleFromAnchor := drafter.sampleFromAnchor
  aifdDraftLayer := drafter.aifdDraftLayer
  maskTokenId := drafter.maskTokenId
  embedTokens := drafter.embedTokens
  fc := drafter.fc
  layers := drafter.layers.map drafter.layerForward
  norm := drafter.norm
  lmHead := drafter.lmHead
  verifierLmHead := drafter.verifierLmHead
  rows := by
    intro layer member inputs noise
    obtain ⟨source, -, rfl⟩ := List.mem_map.mp member
    rw [layerForward, length_attendRows, positioned, List.length_mapIdx]

end BlockDrafter

/-! The heads of DSpark, on the slots of one block after the other. -/

inductive MarkovHeadType (ε ρ : Type) where
  | vanilla
  | gated (gateProj : ρ → ε → ε)
  | rnn (jointProj : ε → ε → ρ → ε × ε × ε)

structure MarkovHead (ε ρ ω : Type) where
  headType : MarkovHeadType ε ρ
  markovW1 : Nat → ε
  markovW2 : ε → ω

section Heads

variable {ε ρ ω κ : Type} [Zero ε] [One ε] [Add ε] [Sub ε] [Mul ε] (sigmoid tanh : ε → ε)

/-- The recurrence over the slots of a block, from a state on. -/
def rnnBias (jointProj : ε → ε → ρ → ε × ε × ε) (markovW2 : ε → ω) : ε → List (ε × ρ) → List ω
  | _, [] => []
  | state, (prevEmb, hidden) :: rest =>
    let (gateRaw, candRaw, outRaw) := jointProj state prevEmb hidden
    let gate := sigmoid gateRaw
    markovW2 (tanh outRaw) ::
      rnnBias jointProj markovW2 (gate * state + (1 - gate) * tanh candRaw) rest

def MarkovHead.blockBias (head : MarkovHead ε ρ ω) (prevEmb : List ε) (hidden : List ρ) : List ω :=
  match head.headType with
  | .vanilla => prevEmb.map head.markovW2
  | .gated gateProj =>
    List.zipWith (fun h e => head.markovW2 (sigmoid (gateProj h e) * e)) hidden prevEmb
  | .rnn jointProj => rnnBias sigmoid tanh jointProj head.markovW2 0 (prevEmb.zip hidden)

/-- With its flag, a confidence head reads the token's embedding beside the hidden row. -/
structure ConfidenceHead (ε ρ κ : Type) where
  withMarkov : Bool
  proj : ρ → Option ε → κ

structure Heads (ε ρ ω κ : Type) where
  markovHead : Option (MarkovHead ε ρ ω)
  confidenceHead : Option (ConfidenceHead ε ρ κ)

/-- Slot `k` predicts the token behind position `k`, or the one at it. -/
def prevTokenIds (sampleFromAnchor : Bool) (blockTokens : List Nat) : List Nat :=
  if sampleFromAnchor then blockTokens else blockTokens.take 1 ++ blockTokens.dropLast

def Heads.logits [Add ω] (heads : Heads ε ρ ω κ) (prevTokens : List Nat) (hidden : List ρ) (logits : List ω) :
    List ω :=
  match heads.markovHead with
  | none => logits
  | some head =>
    List.zipWith (· + ·) logits (head.blockBias sigmoid tanh (prevTokens.map head.markovW1) hidden)

def ConfidenceHead.forward (confidenceHead : ConfidenceHead ε ρ κ) (markovHead : Option (MarkovHead ε ρ ω))
    (prevTokens : List Nat) (hidden : List ρ) : List κ :=
  match markovHead with
  | some head =>
    if confidenceHead.withMarkov then
      List.zipWith (fun h e => confidenceHead.proj h (some e)) hidden (prevTokens.map head.markovW1)
    else hidden.map fun h => confidenceHead.proj h none
  | none => hidden.map fun h => confidenceHead.proj h none

structure HeadsOutput (ω κ : Type) where
  logits : List (List ω)
  confidenceLogits : Option (List (List κ))

def dsparkForward {α η : Type} [MulZeroOneClass α] [DecidableEq α] [Add ω] (drafter : BlockDrafter η ρ ω)
    (heads : Heads ε ρ ω κ) (sample : Sample α η ρ) (maxAnchors : Nat) (perm : List Nat) :
    Option (HeadsOutput ω κ) := do
  let out ← backboneForward drafter.draftModel sample maxAnchors perm
  let blockTokens ← gather sample.inputIds out.anchoredBlockIndices
  let block {β : Type} (rows : List β) (j : Nat) : List β := slice (j * drafter.blockSize) drafter.blockSize rows
  let prevTokens (j : Nat) := prevTokenIds drafter.sampleFromAnchor (block blockTokens j)
  some {
    logits := (List.range maxAnchors).map fun j =>
      heads.logits sigmoid tanh (prevTokens j) (block out.hidden j) (block out.logits j)
    confidenceLogits := heads.confidenceHead.map fun confidenceHead => (List.range maxAnchors).map fun j =>
      confidenceHead.forward heads.markovHead (prevTokens j) (block out.hidden j) }

end Heads

/-! Two runs. The slots of a block keep agreeing from layer to layer. -/

def InBlock (blockSize j q : Nat) : Prop := q / blockSize = j

/-- Positions of the document of `p` in front of it. -/
def Earlier (documentIds : List Int) (p i : Nat) : Prop := i < p ∧ documentIds[i]? = documentIds[p]?

def Readable (documentIds : List Int) (totalSeqLen blockSize j p kvIdx : Nat) : Prop :=
  (kvIdx < totalSeqLen ∧ Earlier documentIds p kvIdx) ∨
    (totalSeqLen ≤ kvIdx ∧ InBlock blockSize j (kvIdx - totalSeqLen))

theorem queryAnchor_block {anchorPositions : List Nat} {blockSize j p q : Nat} (positive : 0 < blockSize)
    (anchor : anchorPositions[j]? = some p) (slot : InBlock blockSize j q) :
    (queryAnchorPositions anchorPositions blockSize).getD q 0 = p := by
  have entry := getElem?_flatMap positive (f := fun p : Nat => List.replicate blockSize p)
    (fun _ => List.length_replicate) anchorPositions q
  rw [slot, anchor, Option.bind_some, List.getElem?_replicate, if_pos (Nat.mod_lt q positive)] at entry
  rw [List.getD_eq_getElem?_getD, queryAnchorPositions, entry, Option.getD_some]

/-- Whatever the window, a slot attends to keys of its block only. -/
theorem mask_closed {documentIds : List Int} {totalSeqLen blockSize j p q : Nat} {anchorPositions : List Nat}
    {slidingWindow : Option Int} {slidingWindowNonCausal : Bool} (positive : 0 < blockSize)
    (anchor : anchorPositions[j]? = some p) (slot : InBlock blockSize j q) (kvIdx : Nat)
    (admitted : createAnchorBlockMaskMod documentIds totalSeqLen anchorPositions blockSize slidingWindow
      slidingWindowNonCausal q kvIdx) : Readable documentIds totalSeqLen blockSize j p kvIdx := by
  rcases (Bool.or_eq_true _ _).mp admitted with base | block
  · simp only [basePrefixMod, queryAnchor_block positive anchor slot, Bool.and_eq_true, decide_eq_true_eq,
      beq_iff_eq] at base
    obtain ⟨⟨⟨inside, same, -⟩, before⟩, -⟩ := base
    rw [Nat.mod_eq_of_lt inside] at same before
    exact .inl ⟨inside, before, same.symm⟩
  · simp only [sameBlockMod, Bool.and_eq_true, decide_eq_true_eq, beq_iff_eq] at block
    obtain ⟨⟨behind, same⟩, -⟩ := block
    exact .inr ⟨behind, same.symm.trans slot⟩

theorem positioned_agree {ρ : Type*} {S : Nat → Prop} {left right : List ρ} (rows : AgreeOn S left right)
    (positionIds : List Nat) : AgreeOn S (positioned left positionIds) (positioned right positionIds) :=
  rows.mapIdx fun _ _ _ => rfl

/-- Inputs of two runs' layers that agree in front of `p`. -/
structure InputsAgree {ρ : Type*} (p : Nat) (left right : LayerInputs ρ) : Prop where
  anchors : left.anchorPositions = right.anchorPositions
  documents : left.documentIds = right.documentIds
  positions : left.positionIds = right.positionIds
  targetHidden : AgreeOn (Earlier left.documentIds p) left.targetHidden right.targetHidden

section Layers

variable {η ρ ω : Type} {drafter : BlockDrafter η ρ ω} {j p : Nat} {left right : LayerInputs ρ}

theorem layerForward_agree (positive : 0 < drafter.blockSize) (anchor : left.anchorPositions[j]? = some p)
    (inputs : InputsAgree p left right) (layer : DecoderLayer ρ) {leftNoise rightNoise : List ρ}
    (noise : AgreeOn (InBlock drafter.blockSize j) leftNoise rightNoise) :
    AgreeOn (InBlock drafter.blockSize j) (drafter.layerForward layer left leftNoise)
      (drafter.layerForward layer right rightNoise) := by
  have keys : AgreeOn (Readable left.documentIds left.targetHidden.length drafter.blockSize j p)
      (left.targetHidden ++ leftNoise) (right.targetHidden ++ rightNoise) := inputs.targetHidden.append noise fun _ => id
  simp only [BlockDrafter.layerForward, ← inputs.anchors, ← inputs.documents, ← inputs.positions,
    ← inputs.targetHidden.length, ← noise.length]
  apply attendRows_agree layer.forward (positioned_agree keys _) (positioned_agree noise _)
  intro q slot kvIdx admitted
  exact mask_closed positive anchor slot kvIdx admitted

/-- The slots of the block agree behind any number of layers. -/
theorem runLayers_agree (positive : 0 < drafter.blockSize) (anchor : left.anchorPositions[j]? = some p)
    (inputs : InputsAgree p left right) (layers : List (DecoderLayer ρ)) (layerIdx : Nat)
    {leftNoise rightNoise : List ρ} (noise : AgreeOn (InBlock drafter.blockSize j) leftNoise rightNoise)
    (leftPred rightPred : Option (List ρ)) :
    AgreeOn (InBlock drafter.blockSize j)
      (runLayers drafter.aifdDraftLayer left layerIdx (layers.map drafter.layerForward) leftNoise leftPred).1
      (runLayers drafter.aifdDraftLayer right layerIdx (layers.map drafter.layerForward) rightNoise rightPred).1 := by
  induction layers generalizing layerIdx leftNoise rightNoise leftPred rightPred with
  | nil => exact noise
  | cons layer layers ih => exact ih _ (layerForward_agree positive anchor inputs layer noise) _ _

end Layers

section Backbone

variable {α η ρ ω : Type}

theorem rel_bind {β γ β' γ' : Type} {r : β → β' → Prop} {s : γ → γ' → Prop} {x : Option β} {x' : Option β'}
    {f : β → Option γ} {f' : β' → Option γ'} (first : Option.Rel r x x')
    (rest : ∀ a a', x = some a → x' = some a' → r a a' → Option.Rel s (f a) (f' a')) :
    Option.Rel s (x.bind f) (x'.bind f') := by
  cases first with
  | some related => exact rest _ _ rfl rfl related
  | none => exact .none

theorem rel_mono {β β' : Type} {r s : β → β' → Prop} {x : Option β} {x' : Option β'} (related : Option.Rel r x x')
    (weaker : ∀ a a', r a a' → s a a') : Option.Rel s x x' := by
  cases related with
  | some here => exact .some (weaker _ _ here)
  | none => exact .none

theorem rel_refl {β : Type} (x : Option β) : Option.Rel (· = ·) x x := by
  cases x with
  | none => exact .none
  | some value => exact .some rfl

/-- Selections by the same positions raise together and agree where the rows do. -/
theorem gather_agree {β : Type} {S : Nat → Prop} {left right : List β} (agree : AgreeOn S left right)
    (idx : List Nat) : Option.Rel (fun rows rows' => rows.length = idx.length ∧
      AgreeOn (fun n => ∃ i, idx[n]? = some i ∧ S i) rows rows') (gather left idx) (gather right idx) := by
  have together : (gather left idx).isSome ↔ (gather right idx).isSome := by
    rw [gather_isSome, gather_isSome, agree.length]
  cases leftRows : gather left idx with
  | none =>
    cases rightRows : gather right idx with
    | none => exact .none
    | some rows => simp [leftRows, rightRows] at together
  | some rows =>
    obtain ⟨rows', rightRows⟩ := Option.isSome_iff_exists.mp (together.mp (by rw [leftRows]; rfl))
    rw [rightRows]
    apply Option.Rel.some
    refine ⟨gather_length leftRows, ?_, ?_⟩
    · rw [gather_length leftRows, gather_length rightRows]
    · rintro n ⟨i, selected, inside⟩
      rw [gather_get leftRows, gather_get rightRows, selected]
      exact agree.entry i inside

/-- Two samples that a block anchored at `p` is to tell apart by nothing. -/
structure Agree (p : Nat) (left right : Sample α η ρ) : Prop where
  documents : left.documentIds = right.documentIds
  lossMask : left.lossMask = right.lossMask
  hiddenStates : ∀ i, Earlier left.documentIds p i → left.hiddenStates[i]? = right.hiddenStates[i]?
  token : left.inputIds[p]? = right.inputIds[p]?

structure SameShape (left right : Sample α η ρ) : Prop where
  positions : left.positionIds = right.positionIds
  tokens : left.inputIds.length = right.inputIds.length
  verifier : left.verifierLastHiddenStates.length = right.verifierLastHiddenStates.length

/-- What two runs of the backbone have in common, block `j` being anchored alike. -/
structure OutputsAgree (blockSize j : Nat) (anchors : List Nat) (left right : BackboneOutput α ρ ω) : Prop where
  hidden : AgreeOn (InBlock blockSize j) left.hidden right.hidden
  logits : AgreeOn (InBlock blockSize j) left.logits right.logits
  indices : left.anchoredBlockIndices = getBaseIndicesForAnchoredBlocks anchors blockSize
  same : left.anchoredBlockIndices = right.anchoredBlockIndices
  hiddenRows : left.hidden.length = anchors.length * blockSize
  logitsRows : left.logits.length = anchors.length * blockSize

theorem length_roll {β : Type} (rows : List β) : (roll rows).length = rows.length := by
  unfold roll List.rotateRight
  dsimp only
  split
  next => rfl
  next many => rw [List.length_append, Nat.add_comm, ← List.length_append, List.take_append_drop]

theorem blockTokens_agree {maskTokenId blockSize j : Nat} (positive : 0 < blockSize) {left right : List Nat}
    (tokens : AgreeOn (· = j) left right) :
    AgreeOn (InBlock blockSize j) (blockTokens maskTokenId blockSize left)
      (blockTokens maskTokenId blockSize right) := by
  have width : ∀ token : Nat, (token :: List.replicate (blockSize - 1) maskTokenId).length = blockSize := by
    intro token
    rw [List.length_cons, List.length_replicate, Nat.sub_add_cancel positive]
  constructor
  · rw [length_blockTokens positive, length_blockTokens positive, tokens.length]
  · intro q slot
    rw [blockTokens, blockTokens, getElem?_flatMap positive width, getElem?_flatMap positive width,
      tokens.entry _ slot]

section Slots

variable {drafter : BlockDrafter η ρ ω} {j p : Nat} {left right : LayerInputs ρ} {leftTokens rightTokens : List Nat}

/-- The block's slots behind all layers, in two runs with the same token at its anchor. -/
theorem slots_agree (positive : 0 < drafter.blockSize) (anchor : left.anchorPositions[j]? = some p)
    (inputs : InputsAgree p left right) (tokens : AgreeOn (· = j) leftTokens rightTokens) :
    AgreeOn (InBlock drafter.blockSize j)
      (runLayers drafter.aifdDraftLayer left 0 (drafter.layers.map drafter.layerForward)
        ((blockTokens drafter.maskTokenId drafter.blockSize leftTokens).map drafter.embedTokens) none).1
      (runLayers drafter.aifdDraftLayer right 0 (drafter.layers.map drafter.layerForward)
        ((blockTokens drafter.maskTokenId drafter.blockSize rightTokens).map drafter.embedTokens) none).1 := by
  apply runLayers_agree positive anchor inputs
  apply AgreeOn.map
  exact blockTokens_agree positive tokens

theorem length_slots (positive : 0 < drafter.blockSize) (inputs : LayerInputs ρ) (tokens : List Nat) :
    (runLayers drafter.aifdDraftLayer inputs 0 (drafter.layers.map drafter.layerForward)
      ((blockTokens drafter.maskTokenId drafter.blockSize tokens).map drafter.embedTokens) none).1.length =
        tokens.length * drafter.blockSize := by
  have noiseRows : ((blockTokens drafter.maskTokenId drafter.blockSize tokens).map drafter.embedTokens).length =
      tokens.length * drafter.blockSize := by
    rw [List.length_map, length_blockTokens positive]
  exact (runLayers_rows _ _ drafter.draftModel.rows 0 none noiseRows
    fun _ taken => absurd taken.symm (Option.some_ne_none _)).1

end Slots

/-- The rows that the targets are taken from are as many in both samples. -/
theorem targetRows_agree {drafter : BlockDrafter η ρ ω} {left right : Sample α η ρ} (shape : SameShape left right) :
    AgreeOn (fun _ => False)
      (if drafter.sampleFromAnchor then left.verifierLastHiddenStates.map drafter.verifierLmHead
        else roll (left.verifierLastHiddenStates.map drafter.verifierLmHead))
      (if drafter.sampleFromAnchor then right.verifierLastHiddenStates.map drafter.verifierLmHead
        else roll (right.verifierLastHiddenStates.map drafter.verifierLmHead)) := by
  refine ⟨?_, fun _ => False.elim⟩
  split
  · rw [List.length_map, List.length_map, shape.verifier]
  · rw [length_roll, length_roll, List.length_map, List.length_map, shape.verifier]

theorem backbone_agree [MulZeroOneClass α] [DecidableEq α] {drafter : BlockDrafter η ρ ω}
    {left right : Sample α η ρ} {numAnchors j p : Nat} {leftPerm rightPerm anchors : List Nat}
    {anchorValid : List Bool} (positive : 0 < drafter.blockSize)
    (leftAnchors : selectAnchors left.lossMask numAnchors drafter.blockSize leftPerm = some (anchors, anchorValid))
    (rightAnchors : selectAnchors right.lossMask numAnchors drafter.blockSize rightPerm =
      some (anchors, anchorValid))
    (anchor : anchors[j]? = some p) (agree : Agree p left right) (shape : SameShape left right) :
    Option.Rel (OutputsAgree drafter.blockSize j anchors)
      (backboneForward drafter.draftModel left numAnchors leftPerm)
      (backboneForward drafter.draftModel right numAnchors rightPerm) := by
  have rows : left.hiddenStates.length = right.hiddenStates.length := by
    rw [← left.masked, ← right.masked, agree.lossMask]
  have context : AgreeOn (Earlier left.documentIds p) left.hiddenStates right.hiddenStates :=
    ⟨rows, agree.hiddenStates⟩
  have tokens : AgreeOn (· = p) left.inputIds right.inputIds := by
    refine ⟨shape.tokens, ?_⟩
    rintro i rfl
    exact agree.token
  rw [← agree.lossMask] at rightAnchors
  simp only [backboneForward, BlockDrafter.draftModel, leftAnchors, rightAnchors, Option.bind_eq_bind,
    Option.bind_some, ← shape.positions, ← rows, ← agree.lossMask]
  -- what is gathered is there in both runs or in neither
  apply rel_bind (gather_agree tokens anchors)
  rintro leftTokens rightTokens - - ⟨count, drawn⟩
  apply rel_bind (rel_refl (gather _ anchors))
  rintro anchorIds _ - - rfl
  apply rel_bind (gather_agree (targetRows_agree shape) _)
  intro leftTargets rightTargets _ _ _
  apply rel_bind (rel_refl (gather _ _))
  rintro gathered _ - - rfl
  apply Option.Rel.some
  have blocks : AgreeOn (· = j) leftTokens rightTokens := by
    apply drawn.mono
    rintro _ rfl
    exact ⟨p, anchor, rfl⟩
  have inputs : InputsAgree p
      ⟨left.hiddenStates.map drafter.fc, anchors, left.documentIds,
        left.positionIds.getD (List.range left.hiddenStates.length) ++
          getBaseIndicesForAnchoredBlocks anchorIds drafter.blockSize⟩
      ⟨right.hiddenStates.map drafter.fc, anchors, right.documentIds,
        left.positionIds.getD (List.range left.hiddenStates.length) ++
          getBaseIndicesForAnchoredBlocks anchorIds drafter.blockSize⟩ :=
    ⟨rfl, agree.documents, rfl, context.map drafter.fc⟩
  have hidden := (slots_agree positive anchor inputs blocks).map drafter.norm
  have size := fun inputs => (List.length_map drafter.norm).trans (length_slots positive inputs leftTokens)
  rw [count] at size
  constructor
  case hidden => exact hidden
  case logits => exact hidden.map drafter.lmHead
  case indices => rfl
  case same => rfl
  case hiddenRows => exact size _
  case logitsRows => exact (List.length_map _).trans (size _)

end Backbone

/-! The heads at a slot read their block up to the slot. -/

section HeadPrefixes

theorem length_prevTokenIds {sampleFromAnchor : Bool} {blockTokens : List Nat} (slots : 0 < blockTokens.length) :
    (prevTokenIds sampleFromAnchor blockTokens).length = blockTokens.length := by
  unfold prevTokenIds
  split
  · rfl
  · rw [List.length_append, List.length_take, List.length_dropLast]
    omega

/-- The token in front of a slot. -/
theorem prevTokenIds_get {sampleFromAnchor : Bool} {blockTokens : List Nat} {i : Nat}
    (inside : i < blockTokens.length) :
    (prevTokenIds sampleFromAnchor blockTokens)[i]? = blockTokens[if sampleFromAnchor then i else i - 1]? := by
  unfold prevTokenIds
  cases sampleFromAnchor with
  | true => rfl
  | false =>
    have front : (blockTokens.take 1).length = 1 := by
      rw [List.length_take]
      omega
    rw [if_neg Bool.false_ne_true, if_neg Bool.false_ne_true]
    cases i with
    | zero => rw [List.getElem?_append_left (by omega), List.getElem?_take_of_lt Nat.one_pos]
    | succ i =>
      rw [List.getElem?_append_right (by omega), front, Nat.add_sub_cancel, List.dropLast_eq_take,
        List.getElem?_take_of_lt (by omega)]

variable {ε ρ ω κ : Type}

theorem confidence_take (confidenceHead : ConfidenceHead ε ρ κ) (markovHead : Option (MarkovHead ε ρ ω))
    (prevTokens : List Nat) (hidden : List ρ) (n : Nat) :
    (confidenceHead.forward markovHead prevTokens hidden).take n =
      confidenceHead.forward markovHead (prevTokens.take n) (hidden.take n) := by
  unfold ConfidenceHead.forward
  cases markovHead with
  | none => exact (List.map_take ..).symm
  | some head =>
    dsimp only
    split
    · rw [List.take_zipWith, List.map_take]
    · exact (List.map_take ..).symm

theorem length_confidence (confidenceHead : ConfidenceHead ε ρ κ) (markovHead : Option (MarkovHead ε ρ ω))
    {prevTokens : List Nat} {hidden : List ρ} (tokens : prevTokens.length = hidden.length) :
    (confidenceHead.forward markovHead prevTokens hidden).length = hidden.length := by
  unfold ConfidenceHead.forward
  cases markovHead with
  | none => exact List.length_map _
  | some head =>
    dsimp only
    split
    · rw [List.length_zipWith, List.length_map, tokens, Nat.min_self]
    · exact List.length_map _

variable [One ε] [Add ε] [Sub ε] [Mul ε] {sigmoid tanh : ε → ε}

theorem rnnBias_take (jointProj : ε → ε → ρ → ε × ε × ε) (markovW2 : ε → ω) (state : ε)
    (rows : List (ε × ρ)) (n : Nat) :
    (rnnBias sigmoid tanh jointProj markovW2 state rows).take n =
      rnnBias sigmoid tanh jointProj markovW2 state (rows.take n) := by
  induction rows generalizing state n with
  | nil => rw [List.take_nil, rnnBias, List.take_nil]
  | cons row rows ih =>
    cases n with
    | zero => rw [List.take_zero, List.take_zero, rnnBias]
    | succ n => rw [rnnBias, List.take_succ_cons, ih, List.take_succ_cons, rnnBias]

theorem length_rnnBias (jointProj : ε → ε → ρ → ε × ε × ε) (markovW2 : ε → ω) (state : ε)
    (rows : List (ε × ρ)) : (rnnBias sigmoid tanh jointProj markovW2 state rows).length = rows.length := by
  induction rows generalizing state with
  | nil => rfl
  | cons row rows ih => rw [rnnBias, List.length_cons, ih, List.length_cons]

variable [Zero ε]

theorem blockBias_take (head : MarkovHead ε ρ ω) (prevEmb : List ε) (hidden : List ρ) (n : Nat) :
    (head.blockBias sigmoid tanh prevEmb hidden).take n =
      head.blockBias sigmoid tanh (prevEmb.take n) (hidden.take n) := by
  unfold MarkovHead.blockBias
  cases head.headType with
  | vanilla => exact (List.map_take ..).symm
  | gated gateProj => exact List.take_zipWith
  | rnn jointProj => rw [rnnBias_take, List.zip_eq_zipWith, List.take_zipWith, List.zip_eq_zipWith]

theorem length_blockBias (head : MarkovHead ε ρ ω) {prevEmb : List ε} {hidden : List ρ}
    (same : prevEmb.length = hidden.length) :
    (head.blockBias sigmoid tanh prevEmb hidden).length = hidden.length := by
  unfold MarkovHead.blockBias
  cases head.headType with
  | vanilla => exact (List.length_map _).trans same
  | gated gateProj => rw [List.length_zipWith, same, Nat.min_self]
  | rnn jointProj => rw [length_rnnBias, List.length_zip, same, Nat.min_self]

theorem logits_take [Add ω] (heads : Heads ε ρ ω κ) (prevTokens : List Nat) (hidden : List ρ)
    (logits : List ω) (n : Nat) : (heads.logits sigmoid tanh prevTokens hidden logits).take n =
      heads.logits sigmoid tanh (prevTokens.take n) (hidden.take n) (logits.take n) := by
  unfold Heads.logits
  cases heads.markovHead with
  | none => rfl
  | some head =>
    dsimp only
    rw [List.take_zipWith, blockBias_take, List.map_take]

theorem length_logits [Add ω] (heads : Heads ε ρ ω κ) {prevTokens : List Nat} {hidden : List ρ}
    {logits : List ω} (tokens : prevTokens.length = hidden.length) (rows : logits.length = hidden.length) :
    (heads.logits sigmoid tanh prevTokens hidden logits).length = hidden.length := by
  unfold Heads.logits
  cases heads.markovHead with
  | none => exact rows
  | some head =>
    dsimp only
    rw [List.length_zipWith, length_blockBias head ((List.length_map _).trans tokens), rows, Nat.min_self]

end HeadPrefixes

section Blocks

variable {β : Type} {blockSize j k : Nat} {left right : List β}

theorem inBlock_add (inside : k < blockSize) : InBlock blockSize j (j * blockSize + k) := by
  rw [InBlock, Nat.mul_comm, Nat.mul_add_div (by omega), Nat.div_eq_of_lt inside, Nat.add_zero]

theorem slice_get (inside : k < blockSize) (rows : List β) :
    (slice (j * blockSize) blockSize rows)[k]? = rows[j * blockSize + k]? := by
  rw [slice, List.getElem?_take_of_lt inside, List.getElem?_drop]

theorem length_block {rows : List β} {blocks : Nat} (size : rows.length = blocks * blockSize)
    (inside : j < blocks) : (slice (j * blockSize) blockSize rows).length = blockSize := by
  have reach : (j + 1) * blockSize ≤ blocks * blockSize := Nat.mul_le_mul_right _ inside
  rw [Nat.succ_mul] at reach
  rw [slice, List.length_take, List.length_drop, size]
  omega

theorem slice_agree (agree : AgreeOn (InBlock blockSize j) left right) :
    slice (j * blockSize) blockSize left = slice (j * blockSize) blockSize right := by
  apply List.ext_getElem?
  intro k
  rcases Nat.lt_or_ge k blockSize with inside | outside
  · rw [slice_get inside, slice_get inside, agree.entry _ (inBlock_add inside)]
  · rw [slice, slice, List.getElem?_take_eq_none outside, List.getElem?_take_eq_none outside]

/-- The position of a slot. -/
theorem baseIndices_get {anchors : List Nat} {p : Nat} (anchor : anchors[j]? = some p) (inside : k < blockSize) :
    (getBaseIndicesForAnchoredBlocks anchors blockSize)[j * blockSize + k]? = some (p + k) := by
  have width : ∀ p : Nat, ((List.range blockSize).map (p + ·)).length = blockSize := by simp
  have block : (j * blockSize + k) / blockSize = j := inBlock_add inside
  have offset : (j * blockSize + k) % blockSize = k := by
    rw [Nat.mul_add_mod', Nat.mod_eq_of_lt inside]
  rw [getBaseIndicesForAnchoredBlocks, getElem?_flatMap (by omega) width, block, offset, anchor, Option.bind_some,
    List.getElem?_map, List.getElem?_range inside, Option.map_some]

end Blocks

theorem blocks_get {β : Type} {blocks j : Nat} (block : Nat → β) (inside : j < blocks) :
    ((List.range blocks).map block)[j]? = some (block j) := by
  rw [List.getElem?_map, List.getElem?_range inside, Option.map_some]

def SameRow {β : Type} (left right : List β) (i : Nat) : Prop :=
  ∃ row, left[i]? = some row ∧ right[i]? = some row

theorem sameRow {β : Type} {S : Nat → Prop} {left right : List β} {i : Nat} (agree : AgreeOn S left right)
    (here : S i) (inside : i < left.length) : SameRow left right i := by
  have entry := agree.entry i here
  rw [List.getElem?_eq_getElem inside] at entry
  exact ⟨left[i], List.getElem?_eq_getElem inside, entry.symm⟩

def SameBlock {α ρ ω : Type} (blockSize j : Nat) (left right : BackboneOutput α ρ ω) : Prop :=
  ∀ k < blockSize, SameRow left.hidden right.hidden (j * blockSize + k) ∧
    SameRow left.logits right.logits (j * blockSize + k)

theorem OutputsAgree.sameBlock {α ρ ω : Type} {blockSize j : Nat} {anchors : List Nat}
    {left right : BackboneOutput α ρ ω} (agree : OutputsAgree blockSize j anchors left right)
    (block : j < anchors.length) : SameBlock blockSize j left right := by
  intro k inside
  have reach : (j + 1) * blockSize ≤ anchors.length * blockSize := Nat.mul_le_mul_right _ block
  rw [Nat.succ_mul] at reach
  have row : j * blockSize + k < anchors.length * blockSize := by omega
  exact ⟨sameRow agree.hidden (inBlock_add inside) (agree.hiddenRows ▸ row),
    sameRow agree.logits (inBlock_add inside) (agree.logitsRows ▸ row)⟩

/-- The tokens behind the anchor that the heads of slot `k` may read. -/
def TokensAgree {α η ρ : Type} (sampleFromAnchor : Bool) (p k : Nat) (left right : Sample α η ρ) : Prop :=
  ∀ i, p < i → (if sampleFromAnchor then i ≤ p + k else i < p + k) → left.inputIds[i]? = right.inputIds[i]?

/-- Logits and confidence in the slots of block `j` whose tokens agree. -/
def SameHeads {α η ρ ω κ : Type} (sampleFromAnchor : Bool) (blockSize j p : Nat) (left right : Sample α η ρ)
    (leftOut rightOut : HeadsOutput ω κ) : Prop :=
  ∀ k < blockSize, TokensAgree sampleFromAnchor p k left right →
    (∃ leftLogits rightLogits, leftOut.logits[j]? = some leftLogits ∧
      rightOut.logits[j]? = some rightLogits ∧ SameRow leftLogits rightLogits k) ∧
    Option.Rel (fun leftConfidence rightConfidence => ∃ leftRow rightRow, leftConfidence[j]? = some leftRow ∧
      rightConfidence[j]? = some rightRow ∧ SameRow leftRow rightRow k)
      leftOut.confidenceLogits rightOut.confidenceLogits

theorem sameRow_of_take {β : Type} {left right : List β} {k : Nat} (inside : k < left.length)
    (same : left.take (k + 1) = right.take (k + 1)) : SameRow left right k := by
  have entry : left[k]? = right[k]? := by
    rw [← List.getElem?_take_of_lt (Nat.lt_succ_self k), same, List.getElem?_take_of_lt (Nat.lt_succ_self k)]
  rw [List.getElem?_eq_getElem inside] at entry
  exact ⟨left[k], List.getElem?_eq_getElem inside, entry.symm⟩

structure BlockTokens {α η ρ : Type} (blockSize p : Nat) (sample : Sample α η ρ) (tokens : List Nat) : Prop where
  length : tokens.length = blockSize
  entry : ∀ n < blockSize, tokens[n]? = sample.inputIds[p + n]?

theorem prevTokens_take {α η ρ : Type} {sampleFromAnchor : Bool} {blockSize p k : Nat} {left right : Sample α η ρ}
    {leftTokens rightTokens : List Nat} (slot : k < blockSize)
    (leftBlock : BlockTokens blockSize p left leftTokens) (rightBlock : BlockTokens blockSize p right rightTokens)
    (anchor : left.inputIds[p]? = right.inputIds[p]?) (tokens : TokensAgree sampleFromAnchor p k left right) :
    (prevTokenIds sampleFromAnchor leftTokens).take (k + 1) =
      (prevTokenIds sampleFromAnchor rightTokens).take (k + 1) := by
  apply List.ext_getElem?
  intro i
  rcases Nat.lt_or_ge i (k + 1) with early | late
  · have inside : i < blockSize := by omega
    rw [List.getElem?_take_of_lt early, List.getElem?_take_of_lt early,
      prevTokenIds_get (leftBlock.length ▸ inside), prevTokenIds_get (rightBlock.length ▸ inside),
      leftBlock.entry _ (by split <;> omega), rightBlock.entry _ (by split <;> omega)]
    rcases Nat.eq_zero_or_pos (if sampleFromAnchor then i else i - 1) with first | behind
    · rw [first]
      exact anchor
    · apply tokens _ (by omega)
      cases sampleFromAnchor with
      | true => exact Nat.add_le_add_left (Nat.lt_succ_iff.mp early) p
      | false =>
        simp only [Bool.false_eq_true, if_false] at behind ⊢
        omega
  · rw [List.getElem?_take_eq_none late, List.getElem?_take_eq_none late]

theorem blockTokens_of_gather {α η ρ : Type} {blockSize j p : Nat} {sample : Sample α η ρ} {anchors tokens : List Nat}
    (anchor : anchors[j]? = some p)
    (gathered : gather sample.inputIds (getBaseIndicesForAnchoredBlocks anchors blockSize) = some tokens) :
    BlockTokens blockSize p sample (slice (j * blockSize) blockSize tokens) := by
  constructor
  · have count := (gather_length gathered).trans (length_baseIndices anchors blockSize)
    exact length_block count (List.getElem?_eq_some_iff.mp anchor).1
  · intro n slot
    rw [slice_get slot, gather_get gathered, baseIndices_get anchor slot, Option.bind_some]

section HeadRows

variable {ε ρ ω κ : Type} {leftTokens rightTokens : List Nat} {hidden : List ρ} {k : Nat}

theorem confidence_sameRow (confidenceHead : ConfidenceHead ε ρ κ) (markovHead : Option (MarkovHead ε ρ ω))
    (slot : k < hidden.length) (tokens : leftTokens.length = hidden.length)
    (prefixes : leftTokens.take (k + 1) = rightTokens.take (k + 1)) :
    SameRow (confidenceHead.forward markovHead leftTokens hidden)
      (confidenceHead.forward markovHead rightTokens hidden) k := by
  apply sameRow_of_take
  · rw [length_confidence confidenceHead markovHead tokens]
    exact slot
  · rw [confidence_take, confidence_take, prefixes]

variable [Zero ε] [One ε] [Add ε] [Sub ε] [Mul ε] {sigmoid tanh : ε → ε}

theorem logits_sameRow [Add ω] (heads : Heads ε ρ ω κ) {logits : List ω} (slot : k < hidden.length)
    (tokens : leftTokens.length = hidden.length) (rows : logits.length = hidden.length)
    (prefixes : leftTokens.take (k + 1) = rightTokens.take (k + 1)) :
    SameRow (heads.logits sigmoid tanh leftTokens hidden logits)
      (heads.logits sigmoid tanh rightTokens hidden logits) k := by
  apply sameRow_of_take
  · rw [length_logits heads tokens rows]
    exact slot
  · rw [logits_take, logits_take, prefixes]

end HeadRows

theorem dspark_agree {α η ε ρ ω κ : Type} [MulZeroOneClass α] [DecidableEq α] [Zero ε] [One ε] [Add ε] [Sub ε]
    [Mul ε] [Add ω] {sigmoid tanh : ε → ε} {drafter : BlockDrafter η ρ ω} (heads : Heads ε ρ ω κ)
    {left right : Sample α η ρ} {numAnchors j p : Nat} {leftPerm rightPerm anchors : List Nat}
    (block : j < numAnchors) (anchor : anchors[j]? = some p) (agree : Agree p left right)
    (shape : SameShape left right)
    (outputs : Option.Rel (OutputsAgree drafter.blockSize j anchors)
      (backboneForward drafter.draftModel left numAnchors leftPerm)
      (backboneForward drafter.draftModel right numAnchors rightPerm)) :
    Option.Rel (SameHeads drafter.sampleFromAnchor drafter.blockSize j p left right)
      (dsparkForward sigmoid tanh drafter heads left numAnchors leftPerm)
      (dsparkForward sigmoid tanh drafter heads right numAnchors rightPerm) := by
  have inside := (List.getElem?_eq_some_iff.mp anchor).1
  apply rel_bind outputs
  intro leftOut rightOut _ _ same
  have raises : AgreeOn (fun _ => False) left.inputIds right.inputIds := ⟨shape.tokens, fun _ => False.elim⟩
  rw [← same.same, same.indices]
  apply rel_bind (gather_agree raises _)
  intro leftTokens rightTokens leftRan rightRan _
  have leftBlock := blockTokens_of_gather anchor leftRan
  have rightBlock := blockTokens_of_gather anchor rightRan
  have hidden := slice_agree same.hidden
  have logits := slice_agree same.logits
  have hiddenRows := length_block same.hiddenRows inside
  have logitsRows := length_block same.logitsRows inside
  apply Option.Rel.some
  intro k slot tokens
  have prefixes := prevTokens_take slot leftBlock rightBlock agree.token tokens
  have tokenRows : (prevTokenIds drafter.sampleFromAnchor
      (slice (j * drafter.blockSize) drafter.blockSize leftTokens)).length =
      (slice (j * drafter.blockSize) drafter.blockSize leftOut.hidden).length := by
    rw [length_prevTokenIds (by rw [leftBlock.length]; omega), leftBlock.length, hiddenRows]
  constructor
  · refine ⟨_, _, blocks_get _ block, blocks_get _ block, ?_⟩
    dsimp only
    rw [← hidden, ← logits]
    exact logits_sameRow heads (hiddenRows.symm ▸ slot) tokenRows (logitsRows.trans hiddenRows.symm) prefixes
  · cases heads.confidenceHead with
    | none => exact .none
    | some confidenceHead =>
      apply Option.Rel.some
      refine ⟨_, _, blocks_get _ block, blocks_get _ block, ?_⟩
      dsimp only
      rw [← hidden]
      exact confidence_sameRow confidenceHead _ (hiddenRows.symm ▸ slot) tokenRows prefixes

section Packed

variable {α η ρ : Type} [Zero α] [Zero η] [Zero ρ]

structure Document (α η ρ : Type) where
  hiddenStates : List η
  inputIds : List Nat
  lossMask : List α
  verifierLastHiddenStates : List ρ

/-- `collate_fn`; the position ids of a document count from 0. -/
def collateSample (maxLen : Nat) (batch : List (Document α η ρ)) : Sample α η ρ where
  hiddenStates := collateRows maxLen (batch.map (·.hiddenStates))
  inputIds := collateRows maxLen (batch.map (·.inputIds))
  lossMask := collateRows maxLen (batch.map (·.lossMask))
  verifierLastHiddenStates := collateRows maxLen (batch.map (·.verifierLastHiddenStates))
  documentIds := collateDocumentIds maxLen (batch.map (·.inputIds.length))
  positionIds := some (collateRows maxLen ((batch.map (·.inputIds.length)).map List.range))
  masked := by rw [length_collateRows, length_collateRows]

theorem collateSample_sameShape {maxLen : Nat} {left right : List (Document α η ρ)}
    (documents : (collateSample maxLen left).documentIds = (collateSample maxLen right).documentIds) :
    SameShape (collateSample maxLen left) (collateSample maxLen right) := by
  constructor
  · apply congrArg some
    apply List.ext_getElem?
    intro i
    have ids : collateDocumentIds maxLen (left.map (·.inputIds.length)) =
      collateDocumentIds maxLen (right.map (·.inputIds.length)) := documents
    rw [collate_positions, collate_positions, ids]
  · exact (length_collateRows ..).trans (length_collateRows ..).symm
  · exact (length_collateRows ..).trans (length_collateRows ..).symm

end Packed

theorem selectAnchors_length {α : Type} [Zero α] [DecidableEq α] {lossMask : List α} {numAnchors blockSize : Nat}
    {perm anchors : List Nat} {anchorValid : List Bool}
    (selected : selectAnchors lossMask numAnchors blockSize perm = some (anchors, anchorValid)) :
    0 < blockSize ∧ anchors.length ≤ numAnchors := by
  obtain ⟨positive, drawn, picked, rfl, -⟩ := selectAnchors_eq_some_iff.mp selected
  have size := gather_length picked
  rw [List.length_take] at size
  refine ⟨positive, ?_⟩
  rw [List.length_append, List.length_insertionSort, List.length_replicate]
  omega

/-- Two packed batches that agree on the context of a block and on its anchor's token give it
the same rows and base logits, and the same head outputs as far as its tokens agree. -/
theorem noLeakage {α η ε ρ ω κ : Type} [MulZeroOneClass α] [DecidableEq α] [Zero η] [Zero ρ] [Zero ε] [One ε]
    [Add ε] [Sub ε] [Mul ε] [Add ω] (sigmoid tanh : ε → ε) (drafter : BlockDrafter η ρ ω) (heads : Heads ε ρ ω κ)
    (maxLen numAnchors : Nat) (left right : List (Document α η ρ)) (leftPerm rightPerm anchors : List Nat)
    (anchorValid : List Bool) (j p : Nat)
    (leftAnchors : selectAnchors (collateSample maxLen left).lossMask numAnchors drafter.blockSize leftPerm =
      some (anchors, anchorValid))
    (rightAnchors : selectAnchors (collateSample maxLen right).lossMask numAnchors drafter.blockSize rightPerm =
      some (anchors, anchorValid))
    (anchor : anchors[j]? = some p) (agree : Agree p (collateSample maxLen left) (collateSample maxLen right)) :
    Option.Rel (SameBlock drafter.blockSize j)
        (backboneForward drafter.draftModel (collateSample maxLen left) numAnchors leftPerm)
        (backboneForward drafter.draftModel (collateSample maxLen right) numAnchors rightPerm) ∧
      Option.Rel (SameHeads drafter.sampleFromAnchor drafter.blockSize j p (collateSample maxLen left)
          (collateSample maxLen right))
        (dsparkForward sigmoid tanh drafter heads (collateSample maxLen left) numAnchors leftPerm)
        (dsparkForward sigmoid tanh drafter heads (collateSample maxLen right) numAnchors rightPerm) := by
  have shape := collateSample_sameShape agree.documents
  have inside := (List.getElem?_eq_some_iff.mp anchor).1
  obtain ⟨positive, drawn⟩ := selectAnchors_length leftAnchors
  have block : j < numAnchors := inside.trans_le drawn
  have outputs := backbone_agree positive leftAnchors rightAnchors anchor agree shape
  constructor
  · exact rel_mono outputs fun _ _ same => same.sameBlock inside
  · exact dspark_agree heads block anchor agree shape outputs

def summingDrafter : BlockDrafter ℤ ℤ ℤ where
  blockSize := 2
  sampleFromAnchor := true
  aifdDraftLayer := -1
  maskTokenId := 0
  slidingWindow := some 1
  slidingWindowNonCausal := false
  embedTokens token := token
  fc row := row
  layers := [⟨true, fun query keys => query.1 + query.2 + (keys.map fun key => key.elim 0 (·.1)).sum⟩]
  norm row := row
  lmHead row := 2 * row
  verifierLmHead row := row

def summingHeads : Heads ℤ ℤ ℤ ℤ where
  markovHead := some ⟨.rnn fun state prevEmb hidden => (state, prevEmb, hidden + state), fun token => token, id⟩
  confidenceHead := some ⟨true, fun hidden prevEmb => hidden + prevEmb.getD 0⟩

/-- Two documents of three tokens; the block is anchored at the second token of the first. -/
def anchoredSecond (later : ℤ) (token : Nat) : List (Document ℤ ℤ ℤ) :=
  [⟨[5, later, later], [7, 8, token], [0, 1, 0], [later, 0, 0]⟩,
    ⟨[later, later, later], [token, token, token], [0, 0, 0], [0, 0, later]⟩]

theorem noLeakage_anchoredSecond :
    (backboneForward summingDrafter.draftModel (collateSample 6 (anchoredSecond 1 1)) 1 [0]).isSome ∧
      (dsparkForward id id summingDrafter summingHeads (collateSample 6 (anchoredSecond 1 1)) 1 [0]).isSome ∧
      Option.Rel (SameBlock 2 0)
        (backboneForward summingDrafter.draftModel (collateSample 6 (anchoredSecond 1 1)) 1 [0])
        (backboneForward summingDrafter.draftModel (collateSample 6 (anchoredSecond 3 2)) 1 [0]) ∧
      Option.Rel (SameHeads true 2 0 1 (collateSample 6 (anchoredSecond 1 1)) (collateSample 6 (anchoredSecond 3 2)))
        (dsparkForward id id summingDrafter summingHeads (collateSample 6 (anchoredSecond 1 1)) 1 [0])
        (dsparkForward id id summingDrafter summingHeads (collateSample 6 (anchoredSecond 3 2)) 1 [0]) := by
  have agree : Agree 1 (collateSample 6 (anchoredSecond 1 1)) (collateSample 6 (anchoredSecond 3 2)) := by
    refine ⟨rfl, rfl, ?_, rfl⟩
    rintro i ⟨before, -⟩
    obtain rfl : i = 0 := by omega
    rfl
  exact ⟨rfl, rfl, noLeakage id id summingDrafter summingHeads 6 1 _ _ [0] [0] [1] [true] 0 1 (by decide +kernel)
    (by decide +kernel) rfl agree⟩

end DreamAifd.BlockDrafting
