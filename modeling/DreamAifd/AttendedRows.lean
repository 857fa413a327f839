import DreamAifd.ArrowDataset
import DreamAifd.BlockDrafting
import DreamAifd.CodSampling
import DreamAifd.Losses
import DreamAifd.OnlineSoftmax
import DreamAifd.TttMasks

/-! Rows of attention masks. A query that no key is admitted for has no softmax, and what is not a number
there reaches the loss through the mask that was to keep it out. -/
namespace DreamAifd.AttendedRows

open ArrowDataset BlockDrafting CodSampling Gather Losses OnlineSoftmax TttMasks

section PeagleMaskMod

variable (anchorPos : List Int) (depth : List Nat) (documentIds : List Int) (slidingWindow : Option Int)

/-- Elements of parallel groups: earlier positions of the sequence and the element's own chain. Anchor
`-1` reads the last document id. -/
def createPeagleMaskMod : MaskMod := fun qIdx kvIdx =>
  let qAnchorPos := anchorPos.getD qIdx 0
  let kvAnchorPos := anchorPos.getD kvIdx 0
  let qDepth := depth.getD qIdx 0
  let kvDepth := depth.getD kvIdx 0
  let sameDocument := pyGet documentIds qAnchorPos == pyGet documentIds kvAnchorPos
  let isNotPadding := pyGet documentIds qAnchorPos != some (-1)
  let sameRollout := qAnchorPos == kvAnchorPos
  let kvDepth0 := kvDepth == 0
  let inDepthOrder := decide (kvDepth ≤ qDepth)
  let isAnchorCausal := decide (kvAnchorPos ≤ qAnchorPos)
  let inWindow := slidingWindow.all fun window => decide (qAnchorPos + qDepth - window < kvAnchorPos)
  isNotPadding && sameDocument && ((kvDepth0 && isAnchorCausal && inWindow) || (sameRollout && inDepthOrder))

end PeagleMaskMod

def maskValue (blockSize : Nat) : AttentionMask → Nat → Nat → MaskValue
  | .additive mask => mask.entry
  | mask => fun qIdx kvIdx => if mask.attends blockSize qIdx kvIdx then 0 else ⊥

theorem maskValue_eq_bot_iff (blockSize : Nat) (mask : AttentionMask) (qIdx kvIdx : Nat) :
    maskValue blockSize mask qIdx kvIdx = ⊥ ↔ ¬mask.attends blockSize qIdx kvIdx := by
  have hidden (attends : Bool) : (if attends then (0 : MaskValue) else ⊥) = ⊥ ↔ ¬attends := by
    cases attends <;> simp
  cases mask with
  | block mask => exact hidden _
  | boolean mask => exact hidden _
  | additive mask => simp [maskValue, AttentionMask.attends]

section Attention

variable (blockSize : Nat) (mask : AttentionMask) (kvLen : Nat) (scores : Nat → Nat → ℝ)

def maskedScores (q : Nat) : List (WithBot ℝ) :=
  (List.range kvLen).map fun k => (scores q k : WithBot ℝ) + (maskValue blockSize mask q k).map ((↑) : ℚ → ℝ)

noncomputable def attentionWeights (q : Nat) : Option (List ℝ) := softmaxRow (maskedScores blockSize mask kvLen scores q)

noncomputable def rowLosses (lossOf : Nat → List ℝ → ℝ) (q : Nat) : LossValue :=
  (attentionWeights blockSize mask kvLen scores q).map fun weights => ((lossOf q weights : ℝ) : WithTop ℝ)

end Attention

/-- Every row has a key and a softmax, and the masked loss is a real number. -/
structure RowsDefined (blockSize : Nat) (mask : AttentionMask) (qLen kvLen : Nat) : Prop where
  key : ∀ q < qLen, ∃ k < kvLen, mask.attends blockSize q k
  weights : ∀ scores, ∀ q < qLen, (attentionWeights blockSize mask kvLen scores q).isSome
  loss : ∀ scores lossOf lossMask, ∀ decayFn : Option DecayFn, (∀ f ∈ decayFn, f.Real qLen) → ∃ loss : ℝ,
    lossFunction qLen (rowLosses blockSize mask kvLen scores lossOf) lossMask decayFn = some (finite loss)

section Rows

variable {blockSize qLen kvLen : Nat} {mask : AttentionMask}

theorem attentionWeights_eq_none_iff (scores : Nat → Nat → ℝ) (q : Nat) :
    attentionWeights blockSize mask kvLen scores q = none ↔ ∀ k < kvLen, ¬mask.attends blockSize q k := by
  rw [attentionWeights, softmaxRow_eq_none_iff]
  simp only [maskedScores, List.mem_map, List.mem_range, forall_exists_index, and_imp, forall_apply_eq_imp_iff₂,
    WithBot.add_eq_bot, WithBot.coe_ne_bot, false_or, WithBot.map_eq_bot_iff, maskValue_eq_bot_iff]

theorem rowsDefined_iff_key :
    RowsDefined blockSize mask qLen kvLen ↔ ∀ q < qLen, ∃ k < kvLen, mask.attends blockSize q k := by
  constructor
  · exact RowsDefined.key
  · intro key
    have weights : ∀ scores, ∀ q < qLen, (attentionWeights blockSize mask kvLen scores q).isSome := by
      intro scores q query
      rw [Option.isSome_iff_ne_none, Ne, attentionWeights_eq_none_iff]
      push Not
      exact key q query
    refine ⟨key, weights, fun scores lossOf lossMask decayFn decays => ?_⟩
    apply lossFunction_finite (x := fun q => lossOf q ((attentionWeights blockSize mask kvLen scores q).getD [])) _ decays
    intro q query
    obtain ⟨found, defined⟩ := Option.isSome_iff_exists.mp (weights scores q query)
    rw [rowLosses, defined]
    rfl

end Rows

/-- What the functions that build masks promise. Lengths need not be whole blocks. -/
structure Documented (blockSize : Nat) (createBlockMask : MaskMod → Nat → Nat → BlockMask)
    (createMask : MaskMod → Nat → Nat → DenseMask Bool) : Prop where
  kvLen : ∀ maskMod qLen kvLen, (createMask maskMod qLen kvLen).kvLen = kvLen
  entry : ∀ maskMod qLen kvLen, ∀ q < qLen, ∀ k < kvLen, (createMask maskMod qLen kvLen).entry q k = maskMod q k
  attends : ∀ maskMod qLen kvLen, ∀ q < qLen, ∀ k < kvLen,
    (createBlockMask maskMod qLen kvLen).attends blockSize q k = maskMod q k
  covers : ∀ maskMod totalSeqLen, blockSize ∣ totalSeqLen →
    Covers blockSize totalSeqLen maskMod (createBlockMask maskMod totalSeqLen totalSeqLen)

section Build

variable (createBlockMask : MaskMod → Nat → Nat → BlockMask) (createMask : MaskMod → Nat → Nat → DenseMask Bool)

def createMaskFn (impl : AttnImplementation) (maskMod : MaskMod) (qLen kvLen : Nat) : AttentionMask :=
  match impl with
  | .simpleFlexAttention => .block (createBlockMask maskMod qLen kvLen)
  | .eager => .additive (createFloatMask createMask maskMod qLen kvLen)
  | .sdpa => .boolean (createMask maskMod qLen kvLen)

variable {blockSize : Nat} {createBlockMask createMask} (documented : Documented blockSize createBlockMask createMask)

include documented

theorem createMaskFn_attends (impl : AttnImplementation) (maskMod : MaskMod) {qLen kvLen q k : Nat} (query : q < qLen)
    (within : k < kvLen) :
    (createMaskFn createBlockMask createMask impl maskMod qLen kvLen).attends blockSize q k = maskMod q k := by
  cases impl with
  | simpleFlexAttention => exact documented.attends maskMod qLen kvLen q query k within
  | sdpa => exact documented.entry maskMod qLen kvLen q query k within
  | eager =>
    simp only [createMaskFn, createFloatMask, AttentionMask.attends,
      documented.entry maskMod qLen kvLen q query k within]
    cases maskMod q k <;> simp

theorem rowsDefined_createMaskFn (impl : AttnImplementation) (maskMod : MaskMod) (qLen kvLen : Nat) :
    RowsDefined blockSize (createMaskFn createBlockMask createMask impl maskMod qLen kvLen) qLen kvLen ↔
      ∀ q < qLen, ∃ k < kvLen, maskMod q k := by
  rw [rowsDefined_iff_key]
  apply forall₂_congr
  intro q query
  apply exists_congr
  intro k
  apply and_congr_right
  intro within
  rw [createMaskFn_attends documented impl maskMod query within]

end Build

/-- A slot of a block sees itself. -/
theorem anchorBlock_self (documentIds : List Int) (totalSeqLen : Nat) (anchorPositions : List Nat) (blockSize : Nat)
    (slidingWindow : Option Int) (slidingWindowNonCausal : Bool) (q : Nat) :
    createAnchorBlockMaskMod documentIds totalSeqLen anchorPositions blockSize slidingWindow slidingWindowNonCausal q
      (totalSeqLen + q) := by
  rw [createAnchorBlockMaskMod, Bool.or_eq_true]
  apply Or.inr
  simp [sameBlockMod, Nat.add_comm q]

/-- A position sees itself on the diagonal, padding or not. -/
theorem combined_self (documentIds : List Int) {totalSeqLen q : Nat} (slidingWindow : Option Int) (query : q < totalSeqLen) :
    createCombinedMaskMod documentIds totalSeqLen slidingWindow q q := by
  rw [createCombinedMaskMod, Bool.or_eq_true]
  apply Or.inr
  simp [diagonalDraftMaskMod, Nat.mod_eq_of_lt query]

/-- An element sees itself unless its anchor is padding; then it sees nothing. -/
theorem peagle_row_iff (anchorPos : List Int) (depth : List Nat) (documentIds : List Int) (slidingWindow : Option Int)
    {n q : Nat} (query : q < n) :
    (∃ k < n, createPeagleMaskMod anchorPos depth documentIds slidingWindow q k) ↔
      pyGet documentIds (anchorPos.getD q 0) ≠ some (-1) := by
  constructor
  · rintro ⟨k, -, attends⟩
    simp only [createPeagleMaskMod, Bool.and_eq_true, bne_iff_ne] at attends
    exact attends.1.1
  · intro document
    refine ⟨q, query, ?_⟩
    simp only [createPeagleMaskMod, Bool.and_eq_true, bne_iff_ne, Bool.or_eq_true]
    exact ⟨⟨document, beq_self_eq_true _⟩, .inr ⟨beq_self_eq_true _, decide_eq_true le_rfl⟩⟩

theorem rowsDefined_extended {blockSize : Nat} {createBlockMask : MaskMod → Nat → Nat → BlockMask}
    {createMask : MaskMod → Nat → Nat → DenseMask Bool} (documented : Documented blockSize createBlockMask createMask)
    (impl : AttnImplementation) (documentIds : List Int) {totalSeqLen : Nat} (slidingWindow : Option Int) (steps : Nat)
    (divides : impl = .simpleFlexAttention → blockSize ∣ totalSeqLen) :
    RowsDefined blockSize ((AttentionMask.extend totalSeqLen)^[steps]
        (buildAttnMask createBlockMask createMask impl documentIds totalSeqLen slidingWindow))
      totalSeqLen ((steps + 1) * totalSeqLen) := by
  rw [rowsDefined_iff_key]
  intro q query
  have room : totalSeqLen ≤ (steps + 1) * totalSeqLen := Nat.le_mul_of_pos_left _ (Nat.succ_pos steps)
  have within := query.trans_le room
  have self := combined_self documentIds slidingWindow query
  have evaluates (maskMod : MaskMod) : Evaluates totalSeqLen maskMod (createMask maskMod totalSeqLen totalSeqLen) :=
    ⟨documented.kvLen maskMod _ _, documented.entry maskMod _ _⟩
  refine ⟨q, within, ?_⟩
  cases impl with
  | simpleFlexAttention =>
    have whole := divides rfl
    exact (matches_block whole (documented.covers _ _ whole) steps q query q within).mpr (.inl ⟨query, self⟩)
  | sdpa => exact (matches_boolean (evaluates _) steps q query q within).mpr (.inl ⟨query, self⟩)
  | eager =>
    refine (attends_additive blockSize (evaluates _) query within).mpr ?_
    rw [if_pos query]
    exact self

/-- Depth 0 of a sample holds every position. -/
theorem anchorPos_prefix {pow : ℚ → Nat → ℚ} {round : ℚ → ℚ} {seqLength numDepths : Nat} {lossMask : List ℚ}
    {downSampleRatio downSampleRatioMin : ℚ} {filterPositionZero : Bool} {maxAnchors : Option Nat}
    {randperm : Nat → Nat → List Nat} {anchorPos : List Int} {depth : List Nat}
    (sampled : generateCodSampleIndices pow round seqLength lossMask numDepths downSampleRatio downSampleRatioMin
      filterPositionZero maxAnchors randperm = some (anchorPos, depth)) :
    ∃ rest, anchorPos = (List.range seqLength).map Nat.cast ++ rest := by
  rw [generateCodSampleIndices] at sampled
  obtain ⟨seeds, -, sampled⟩ := Option.bind_eq_some_iff.mp sampled
  obtain ⟨rounds, -, sampled⟩ := Option.bind_eq_some_iff.mp sampled
  obtain ⟨positions, -⟩ := Prod.mk.inj (Option.some.inj sampled)
  exact ⟨rounds.flatten, positions.symm⟩

theorem mem_of_pyGet {α : Type*} {xs : List α} {k : Int} {x : α} (found : pyGet xs k = some x) : x ∈ xs := by
  rw [pyGet] at found
  split at found
  next => exact List.mem_of_getElem? found
  next =>
    split at found
    next => exact List.mem_of_getElem? found
    next => cases found

/-- The rows of parallel groups have keys exactly where the sequence has no padding. -/
theorem peagle_key_iff {documentIds : List Int} (slidingWindow : Option Int) {anchorPos rest : List Int}
    (depth : List Nat) (whole : anchorPos = (List.range documentIds.length).map Nat.cast ++ rest) :
    (∀ q < anchorPos.length, ∃ k < anchorPos.length,
        createPeagleMaskMod anchorPos depth documentIds slidingWindow q k) ↔ ∀ id ∈ documentIds, id ≠ -1 := by
  constructor
  · intro key id member
    obtain ⟨t, inside, rfl⟩ := List.getElem_of_mem member
    have query : t < anchorPos.length := by
      rw [whole, List.length_append, List.length_map, List.length_range]
      exact Nat.lt_add_right _ inside
    have document := (peagle_row_iff anchorPos depth documentIds slidingWindow query).mp (key t query)
    have anchor : anchorPos.getD t 0 = t := by
      rw [whole, List.getD_append _ _ _ _ (by simpa using inside), List.getD_eq_getElem _ _ (by simpa using inside)]
      simp
    rw [anchor, pyGet, if_pos (Int.natCast_nonneg t), Int.toNat_natCast, List.getElem?_eq_getElem inside] at document
    exact fun padding => document (congrArg some padding)
  · intro documents q query
    rw [peagle_row_iff anchorPos depth documentIds slidingWindow query]
    exact fun padding => documents (-1) (mem_of_pyGet padding) rfl

/-- Blocks of anchors and combined masks, extended or not, leave no row without a key. Parallel groups do
where a batch is padded. -/
theorem rowsDefined_iff {flexBlockSize : Nat} {createBlockMask : MaskMod → Nat → Nat → BlockMask}
    {createMask : MaskMod → Nat → Nat → DenseMask Bool}
    (documented : Documented flexBlockSize createBlockMask createMask) (impl : AttnImplementation)
    (documentIds : List Int) (slidingWindow : Option Int) :
    (∀ (totalSeqLen : Nat) (anchorPositions : List Nat) (blockSize : Nat) (slidingWindowNonCausal : Bool),
      RowsDefined flexBlockSize (createMaskFn createBlockMask createMask impl
          (createAnchorBlockMaskMod documentIds totalSeqLen anchorPositions blockSize slidingWindow
            slidingWindowNonCausal)
          (anchorPositions.length * blockSize) (totalSeqLen + anchorPositions.length * blockSize))
        (anchorPositions.length * blockSize) (totalSeqLen + anchorPositions.length * blockSize)) ∧
    (∀ totalSeqLen steps : Nat, (impl = .simpleFlexAttention → flexBlockSize ∣ totalSeqLen) →
      RowsDefined flexBlockSize ((AttentionMask.extend totalSeqLen)^[steps]
          (buildAttnMask createBlockMask createMask impl documentIds totalSeqLen slidingWindow))
        totalSeqLen ((steps + 1) * totalSeqLen)) ∧
    ∀ (pow : ℚ → Nat → ℚ) (round : ℚ → ℚ) (lossMask : List ℚ) (numDepths : Nat)
      (downSampleRatio downSampleRatioMin : ℚ) (filterPositionZero : Bool) (maxAnchors : Option Nat) (randperm : Nat → Nat → List Nat) (anchorPos : List Int) (depth : List Nat),
      generateCodSampleIndices pow round documentIds.length lossMask numDepths downSampleRatio downSampleRatioMin
          filterPositionZero maxAnchors randperm = some (anchorPos, depth) →
        (RowsDefined flexBlockSize (createMaskFn createBlockMask createMask impl
            (createPeagleMaskMod anchorPos depth documentIds slidingWindow) anchorPos.length anchorPos.length)
          anchorPos.length anchorPos.length ↔ ∀ id ∈ documentIds, id ≠ -1) := by
  refine ⟨fun totalSeqLen anchorPositions blockSize nonCausal => ?_, fun totalSeqLen steps divides => ?_, ?_⟩
  · rw [rowsDefined_createMaskFn documented]
    exact fun q query => ⟨totalSeqLen + q, Nat.add_lt_add_left query _, anchorBlock_self ..⟩
  · exact rowsDefined_extended documented impl documentIds slidingWindow steps divides
  · intro pow round lossMask numDepths downSampleRatio downSampleRatioMin filterPositionZero maxAnchors randperm anchorPos depth
      sampled
    obtain ⟨rest, whole⟩ := anchorPos_prefix sampled
    rw [rowsDefined_createMaskFn documented]
    exact peagle_key_iff slidingWindow depth whole

/-- Every block is listed, none as full. -/
def wholeBlockMask (maskMod : MaskMod) (qLen kvLen : Nat) : BlockMask :=
  ⟨qLen, kvLen, ⟨fun _ => kvLen, fun _ slot => slot⟩, none, maskMod⟩

theorem wholeBlockMask_lists (maskMod : MaskMod) (qLen kvLen row block : Nat) :
    (wholeBlockMask maskMod qLen kvLen).kv.lists row block ↔ block < kvLen := by
  rw [lists_iff]
  exact ⟨fun ⟨slot, within, here⟩ => here ▸ within, fun within => ⟨block, within, rfl⟩⟩

theorem wholeBlockMask_documented : Documented 1 wholeBlockMask evaluatedMask where
  kvLen _ _ _ := rfl
  entry _ _ _ _ _ _ _ := rfl
  attends maskMod qLen kvLen q _ k within := by
    have listed := (wholeBlockMask_lists maskMod qLen kvLen (q / 1) (k / 1)).mpr (by rwa [Nat.div_one])
    rw [BlockMask.attends, listed]
    simp [wholeBlockMask]
  covers maskMod totalSeqLen _ := {
    maskMod_eq := rfl
    qBlocks_eq := (Nat.div_one _).symm
    kvBlocks_eq := (Nat.div_one _).symm
    num_le := fun _ _ => le_rfl
    full_num_le := fun _ member => nomatch member
    listed := fun row _ block listed => (wholeBlockMask_lists maskMod _ _ row block).mp listed
    full_listed := fun _ member => nomatch member
    full_attended := fun _ member => nomatch member
    attended_listed := fun q _ k within _ =>
      .inl ((wholeBlockMask_lists maskMod _ _ (q / 1) (k / 1)).mpr (by rwa [Nat.div_one])) }

/-- A padded batch of two positions, extended once. -/
theorem rowsDefined_padded : RowsDefined 1 ((AttentionMask.extend 2)^[1]
    (buildAttnMask wholeBlockMask evaluatedMask .eager [0, -1] 2 (some 1))) 2 4 :=
  (rowsDefined_iff wholeBlockMask_documented .eager [0, -1] (some 1)).2.1 2 1 nofun

/-- The padding row of parallel groups has no key, and the masked loss is not a number although the mask
leaves that row out. -/
theorem rowsDefined_not_peagle :
    generateCodSampleIndices (· ^ ·) id 2 [1, 0] 1 1 1 true none (fun _ m => List.range m) = some ([0, 1], [0, 0]) ∧
      ¬RowsDefined 1 (createMaskFn wholeBlockMask evaluatedMask .eager
        (createPeagleMaskMod [0, 1] [0, 0] [0, -1] none) 2 2) 2 2 ∧
      ∀ scores lossOf, lossFunction 2 (rowLosses 1 (createMaskFn wholeBlockMask evaluatedMask .eager
        (createPeagleMaskMod [0, 1] [0, 0] [0, -1] none) 2 2) 2 scores lossOf) (fun t => t == 0) none = some none := by
  have noKey : ∀ k < 2, ¬(createMaskFn wholeBlockMask evaluatedMask .eager
      (createPeagleMaskMod [0, 1] [0, 0] [0, -1] none) 2 2).attends 1 1 k := by decide
  refine ⟨by decide +kernel, fun claimed => ?_, fun scores lossOf => ?_⟩
  · obtain ⟨k, within, attends⟩ := claimed.key 1 Nat.one_lt_two
    exact noKey k within attends
  · apply lossFunction_nan _ Nat.one_lt_two
    rw [rowLosses, (attentionWeights_eq_none_iff scores 1).mpr noKey]
    rfl

end DreamAifd.AttendedRows
