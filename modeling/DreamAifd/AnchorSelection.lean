import DreamAifd.BlockDrafting
import DreamAifd.Draws
import DreamAifd.Supervision

/-! Which anchors are drawn and which slots are supervised. Valid anchors are increasing trainable
positions; the rows that a roll carries around the end of the sequence count nothing. -/
namespace DreamAifd.AnchorSelection

open AnchoredBlocks BlockDrafting Draws Gather Segments Supervision

def validAnchors (anchors : List Nat) (anchorValid : List Bool) : List Nat :=
  ((anchors.zip anchorValid).filter (·.2)).map (·.1)

/-- Anchors that were drawn from the trainable positions in front of the last block. -/
structure DrawnAnchors (lossMask : List ℚ) (numAnchors blockSize : Nat) (anchors : List Nat)
    (anchorValid : List Bool) : Prop where
  blocks : anchors.length = numAnchors ∧ anchorValid.length = numAnchors
  increasing : (validAnchors anchors anchorValid).Pairwise (· < ·)
  trainable : ∀ p ∈ validAnchors anchors anchorValid, p < lossMask.length - blockSize ∧ lossMask.getD p 0 ≠ 0
  count : (validAnchors anchors anchorValid).length =
    min numAnchors ((List.range (lossMask.length - blockSize)).countP fun i => lossMask.getD i 0 ≠ 0)
  padded : ∀ j : Nat, anchorValid[j]? = some false → anchors[j]? = some 0

section Select

variable {lossMask : List ℚ} {numAnchors blockSize : Nat} {perm : List Nat}

theorem validAnchors_append (drawn : List Nat) (padding : Nat) :
    validAnchors (drawn ++ List.replicate padding 0)
      (List.replicate drawn.length true ++ List.replicate padding false) = drawn := by
  have front : (drawn.zip (List.replicate drawn.length true)).filter (·.2) =
      drawn.zip (List.replicate drawn.length true) := by
    rw [List.filter_eq_self]
    exact fun block member => List.eq_of_mem_replicate (List.of_mem_zip member).2
  have back : ((List.replicate padding 0).zip (List.replicate padding false)).filter (·.2) = [] := by
    rw [List.filter_eq_nil_iff]
    intro block member
    rw [List.eq_of_mem_replicate (List.of_mem_zip member).2]
    decide
  rw [validAnchors, List.zip_append (by rw [List.length_replicate]), List.filter_append, front, back, List.append_nil,
    List.map_fst_zip (by rw [List.length_replicate])]

theorem validIndices_increasing : (validIndices lossMask blockSize).Pairwise (· < ·) :=
  List.pairwise_lt_range.filter _

theorem selectAnchors_drawn (numAnchors : Nat) (positive : 0 < blockSize)
    (permutes : perm.Perm (List.range (validIndices lossMask blockSize).length)) :
    ∃ anchors anchorValid, selectAnchors lossMask numAnchors blockSize perm = some (anchors, anchorValid) ∧
      DrawnAnchors lossMask numAnchors blockSize anchors anchorValid := by
  obtain ⟨drawn, picked, -⟩ := draw_subperm permutes (min numAnchors (validIndices lossMask blockSize).length)
  obtain ⟨part, count⟩ := sortedDraw_sublist validIndices_increasing permutes picked
  rw [Nat.min_assoc, Nat.min_self] at count
  have selected : selectAnchors lossMask numAnchors blockSize perm =
      some (drawn.insertionSort (· ≤ ·) ++
          List.replicate (numAnchors - min numAnchors (validIndices lossMask blockSize).length) 0,
        List.replicate (min numAnchors (validIndices lossMask blockSize).length) true ++
          List.replicate (numAnchors - min numAnchors (validIndices lossMask blockSize).length) false) :=
    selectAnchors_eq_some_iff.mpr ⟨positive, drawn, picked, rfl, rfl⟩
  refine ⟨_, _, selected, ?_⟩
  have marked := validAnchors_append (drawn.insertionSort (· ≤ ·))
    (numAnchors - min numAnchors (validIndices lossMask blockSize).length)
  rw [count] at marked
  constructor
  case blocks =>
    rw [List.length_append, List.length_append, List.length_replicate, List.length_replicate, List.length_replicate,
      count]
    omega
  case increasing => exact marked.symm ▸ validIndices_increasing.sublist part
  case trainable =>
    intro p member
    rw [marked] at member
    exact mem_validIndices.mp (part.subset member)
  case count => rw [marked, count, validIndices, List.countP_eq_length_filter]
  case padded =>
    intro j invalid
    rcases Nat.lt_or_ge j (min numAnchors (validIndices lossMask blockSize).length) with front | back
    · rw [List.getElem?_append_left (by rwa [List.length_replicate]), List.getElem?_replicate, if_pos front]
        at invalid
      cases invalid
    · have inside := (List.getElem?_eq_some_iff.mp invalid).1
      rw [List.length_append, List.length_replicate, List.length_replicate] at inside
      rw [List.getElem?_append_right (by rw [count]; exact back), count, List.getElem?_replicate, if_pos (by omega)]

end Select

/-- The row that a slot is scored against, its position, and its weight. -/
structure SlotSupervised {η ρ ω : Type} (model : DraftModel η ρ ω) (sample : Sample ℚ η ρ) (anchorValid : List Bool)
    (out : BackboneOutput ℚ ρ ω) (j k p : Nat) (m : ℚ) : Prop where
  index : out.anchoredBlockIndices[j * model.blockSize + k]? = some (p + k)
  inside : p + k < sample.lossMask.length
  mask : out.alignedLossMask[j * model.blockSize + k]? = some m
  supervised : m ≠ 0 ↔
    anchorValid[j]? = some true ∧ sample.lossMask.getD (p + k) 0 ≠ 0 ∧ (0 < k ∨ model.sampleFromAnchor = true)
  target : out.targets[j * model.blockSize + k]? =
    (if model.sampleFromAnchor then sample.verifierLastHiddenStates[p + k]?
      else (roll sample.verifierLastHiddenStates)[p + k]?).map model.verifierLmHead
  /-- The roll carries no row around the end of the sequence to a supervised slot. -/
  unwrapped : model.sampleFromAnchor = false → m ≠ 0 →
    0 < p + k ∧ (roll sample.verifierLastHiddenStates)[p + k]? = sample.verifierLastHiddenStates[p + k - 1]?

structure Shaped {η ρ : Type} (sample : Sample ℚ η ρ) : Prop where
  inputIds : sample.inputIds.length = sample.lossMask.length
  verifier : sample.verifierLastHiddenStates.length = sample.lossMask.length
  positionIds : ∀ ids, sample.positionIds = some ids → ids.length = sample.lossMask.length

section Slots

variable {η ρ ω : Type} {model : DraftModel η ρ ω} {sample : Sample ℚ η ρ} {numAnchors : Nat} {anchors : List Nat}
  {anchorValid : List Bool}

theorem roll_get {β : Type} (rows : List β) {i : Nat} (inside : i + 1 < rows.length) :
    (roll rows)[i + 1]? = rows[i]? := by
  have many : ¬rows.length ≤ 1 := by omega
  have last : 1 % rows.length = 1 := Nat.mod_eq_of_lt (by omega)
  have tail : (rows.drop (rows.length - 1)).length = 1 := by
    rw [List.length_drop]
    omega
  unfold roll List.rotateRight
  rw [if_neg many, last, List.getElem?_append_right (by omega), tail, Nat.add_sub_cancel,
    List.getElem?_take_of_lt (by omega)]

theorem roll_map {β γ : Type} (f : β → γ) (rows : List β) : roll (rows.map f) = (roll rows).map f := by
  unfold roll List.rotateRight
  dsimp only
  rw [List.length_map]
  split
  next => rfl
  next => rw [List.map_append, List.map_take, List.map_drop]

/-- Anchors stay far enough from the end for their blocks, the padded ones at 0 too. -/
theorem DrawnAnchors.inside {lossMask : List ℚ} {blockSize j k p : Nat}
    (drawn : DrawnAnchors lossMask numAnchors blockSize anchors anchorValid) (long : blockSize ≤ lossMask.length)
    (anchor : anchors[j]? = some p) (slot : k < blockSize) : p + k < lossMask.length := by
  obtain ⟨sized, sizedValid⟩ := drawn.blocks
  have block : j < numAnchors := sized ▸ (List.getElem?_eq_some_iff.mp anchor).1
  have marked : anchorValid[j]? = some anchorValid[j] := List.getElem?_eq_getElem (sizedValid.symm ▸ block)
  cases valid : anchorValid[j] with
  | false =>
    rw [valid] at marked
    rw [drawn.padded j marked] at anchor
    obtain rfl := Option.some.inj anchor
    omega
  | true =>
    rw [valid] at marked
    have member : p ∈ validAnchors anchors anchorValid := by
      have pair : (p, true) ∈ anchors.zip anchorValid :=
        List.mem_of_getElem? (List.getElem?_zip_eq_some.mpr ⟨anchor, marked⟩)
      exact List.mem_map.mpr ⟨_, List.mem_filter.mpr ⟨pair, rfl⟩, rfl⟩
    have front := (drawn.trainable p member).1
    omega

theorem mem_baseIndices {blockSize i : Nat} : i ∈ getBaseIndicesForAnchoredBlocks anchors blockSize ↔
    ∃ p ∈ anchors, ∃ k < blockSize, i = p + k := by
  simp [getBaseIndicesForAnchoredBlocks, eq_comm]

theorem slotWeight_ne_zero (sampleFromAnchor valid : Bool) (m : ℚ) (k : Nat) :
    slotWeight sampleFromAnchor m valid k ≠ 0 ↔ valid = true ∧ m ≠ 0 ∧ (0 < k ∨ sampleFromAnchor = true) := by
  rw [slotWeight]
  cases sampleFromAnchor <;> cases valid <;> rcases k with _ | k <;> simp

/-- The parts of a forward that depend on the anchors. -/
theorem backboneForward_parts {perm : List Nat} {out : BackboneOutput ℚ ρ ω}
    (selected : selectAnchors sample.lossMask numAnchors model.blockSize perm = some (anchors, anchorValid))
    (ran : backboneForward model sample numAnchors perm = some out) :
    out.anchoredBlockIndices = getBaseIndicesForAnchoredBlocks anchors model.blockSize ∧
      gather (if model.sampleFromAnchor then sample.verifierLastHiddenStates.map model.verifierLmHead
        else roll (sample.verifierLastHiddenStates.map model.verifierLmHead))
          (getBaseIndicesForAnchoredBlocks anchors model.blockSize) = some out.targets ∧
      ∃ gathered, gather sample.lossMask (getBaseIndicesForAnchoredBlocks anchors model.blockSize) = some gathered ∧
        out.alignedLossMask = alignMask model.sampleFromAnchor model.blockSize gathered anchorValid := by
  obtain ⟨⟨anchors', anchorValid'⟩, selected', ran⟩ := Option.bind_eq_some_iff.mp ran
  obtain ⟨rfl, rfl⟩ := Prod.mk.inj (Option.some.inj (selected.symm.trans selected'))
  obtain ⟨anchorTokens, -, ran⟩ := Option.bind_eq_some_iff.mp ran
  obtain ⟨anchorIds, -, ran⟩ := Option.bind_eq_some_iff.mp ran
  obtain ⟨targets, aimed, ran⟩ := Option.bind_eq_some_iff.mp ran
  obtain ⟨gathered, weighed, ran⟩ := Option.bind_eq_some_iff.mp ran
  cases ran
  exact ⟨rfl, aimed, gathered, weighed, rfl⟩

theorem backboneForward_returns {perm : List Nat} (shaped : Shaped sample)
    (selected : selectAnchors sample.lossMask numAnchors model.blockSize perm = some (anchors, anchorValid))
    (anchored : ∀ p ∈ anchors, p < sample.lossMask.length)
    (indexed : ∀ i ∈ getBaseIndicesForAnchoredBlocks anchors model.blockSize, i < sample.lossMask.length) :
    ∃ out, backboneForward model sample numAnchors perm = some out := by
  have positions : (sample.positionIds.getD (List.range sample.hiddenStates.length)).length =
      sample.lossMask.length := by
    cases given : sample.positionIds with
    | none => rw [Option.getD_none, List.length_range, sample.masked]
    | some ids => exact shaped.positionIds ids given
  have logits : (if model.sampleFromAnchor then sample.verifierLastHiddenStates.map model.verifierLmHead
      else roll (sample.verifierLastHiddenStates.map model.verifierLmHead)).length = sample.lossMask.length := by
    split
    · rw [List.length_map, shaped.verifier]
    · rw [length_roll, List.length_map, shaped.verifier]
  obtain ⟨anchorTokens, tokens⟩ := Option.isSome_iff_exists.mp (gather_isSome.mpr (shaped.inputIds.symm ▸ anchored))
  obtain ⟨anchorIds, ids⟩ := Option.isSome_iff_exists.mp (gather_isSome.mpr (positions.symm ▸ anchored))
  obtain ⟨targets, aimed⟩ := Option.isSome_iff_exists.mp (gather_isSome.mpr (logits.symm ▸ indexed))
  obtain ⟨gathered, weighed⟩ := Option.isSome_iff_exists.mp (gather_isSome.mpr indexed)
  apply Option.isSome_iff_exists.mp
  unfold backboneForward
  simp only [selected, tokens, ids, aimed, weighed, Option.bind_eq_bind, Option.bind_some]
  rfl

theorem alignedLossMask_get {gathered : List ℚ} {j k p : Nat} {valid : Bool} (slot : k < model.blockSize)
    (sizes : anchors.length = anchorValid.length)
    (indexed : ∀ i ∈ getBaseIndicesForAnchoredBlocks anchors model.blockSize, i < sample.lossMask.length)
    (weighed : gather sample.lossMask (getBaseIndicesForAnchoredBlocks anchors model.blockSize) = some gathered)
    (anchor : anchors[j]? = some p) (marked : anchorValid[j]? = some valid) :
    (alignMask model.sampleFromAnchor model.blockSize gathered anchorValid)[j * model.blockSize + k]? =
      some (slotWeight model.sampleFromAnchor (sample.lossMask.getD (p + k) 0) valid k) := by
  have slots : gathered = anchors.flatMap fun p =>
      (List.range model.blockSize).map fun k => sample.lossMask.getD (p + k) 0 := by
    rw [← Option.some.inj ((gather_slots indexed).symm.trans weighed)]
    simp [getBaseIndicesForAnchoredBlocks, List.map_flatMap, Function.comp_def]
  have pair : (anchors.zip anchorValid)[j]? = some (p, valid) := List.getElem?_zip_eq_some.mpr ⟨anchor, marked⟩
  have block : (j * model.blockSize + k) / model.blockSize = j := inBlock_add slot
  have offset : (j * model.blockSize + k) % model.blockSize = k := by
    rw [Nat.mul_add_mod', Nat.mod_eq_of_lt slot]
  have positive : 0 < model.blockSize := by omega
  rw [slots, alignMask_blocks _ (fun i => sample.lossMask.getD i 0) sizes, getElem?_flatMap positive (by simp), block,
    offset, pair, Option.bind_some, List.getElem?_map, List.getElem?_range slot, Option.map_some]

/-- A forward returns for every drawing, and supervises exactly the trainable slots of valid blocks. -/
theorem backboneForward_supervised (model : DraftModel η ρ ω) (sample : Sample ℚ η ρ) (numAnchors : Nat)
    (perm : List Nat) (positive : 0 < model.blockSize) (long : model.blockSize ≤ sample.lossMask.length)
    (shaped : Shaped sample)
    (permutes : perm.Perm (List.range (validIndices sample.lossMask model.blockSize).length)) :
    ∃ anchors anchorValid out,
      selectAnchors sample.lossMask numAnchors model.blockSize perm = some (anchors, anchorValid) ∧
      backboneForward model sample numAnchors perm = some out ∧
      DrawnAnchors sample.lossMask numAnchors model.blockSize anchors anchorValid ∧
      out.alignedLossMask.length = numAnchors * model.blockSize ∧
      ∀ j < numAnchors, ∀ k < model.blockSize, ∃ p m, anchors[j]? = some p ∧
        SlotSupervised model sample anchorValid out j k p m := by
  obtain ⟨anchors, anchorValid, selected, drawn⟩ := selectAnchors_drawn numAnchors positive permutes
  obtain ⟨sized, sizedValid⟩ := drawn.blocks
  have sizes : anchors.length = anchorValid.length := sized.trans sizedValid.symm
  have anchored : ∀ p ∈ anchors, p < sample.lossMask.length := by
    intro p member
    obtain ⟨j, bounded, rfl⟩ := List.mem_iff_getElem.mp member
    exact drawn.inside long (List.getElem?_eq_getElem bounded) positive
  have indexed : ∀ i ∈ getBaseIndicesForAnchoredBlocks anchors model.blockSize, i < sample.lossMask.length := by
    intro i member
    obtain ⟨p, held, k, slot, rfl⟩ := mem_baseIndices.mp member
    obtain ⟨j, bounded, rfl⟩ := List.mem_iff_getElem.mp held
    exact drawn.inside long (List.getElem?_eq_getElem bounded) slot
  obtain ⟨out, ran⟩ := backboneForward_returns shaped selected anchored indexed
  obtain ⟨same, aimed, gathered, weighed, aligned⟩ := backboneForward_parts selected ran
  obtain ⟨_, backbone⟩ := backboneForward_some permutes ran
  refine ⟨anchors, anchorValid, out, selected, ran, drawn, backbone.mask, fun j block k slot => ?_⟩
  have anchor : anchors[j]? = some anchors[j] := List.getElem?_eq_getElem (sized.symm ▸ block)
  have marked : anchorValid[j]? = some anchorValid[j] := List.getElem?_eq_getElem (sizedValid.symm ▸ block)
  have index := baseIndices_get anchor slot
  have inside := drawn.inside long anchor slot
  have weight := slotWeight_ne_zero model.sampleFromAnchor anchorValid[j]
    (sample.lossMask.getD (anchors[j] + k) 0) k
  refine ⟨anchors[j], slotWeight model.sampleFromAnchor (sample.lossMask.getD (anchors[j] + k) 0) anchorValid[j] k,
    anchor, ?_⟩
  constructor
  case index => rw [same, index]
  case inside => exact inside
  case mask =>
    rw [aligned]
    exact alignedLossMask_get slot sizes indexed weighed anchor marked
  case supervised => rw [weight, marked, Option.some.injEq]
  case target =>
    rw [gather_get aimed, index, Option.bind_some]
    split
    · rw [List.getElem?_map]
    · rw [roll_map, List.getElem?_map]
  case unwrapped =>
    intro shifted supervised
    obtain ⟨-, -, later | sampled⟩ := weight.mp supervised
    · obtain ⟨i, position⟩ : ∃ i, anchors[j] + k = i + 1 := ⟨anchors[j] + k - 1, by omega⟩
      refine ⟨by omega, ?_⟩
      rw [position, Nat.add_sub_cancel]
      exact roll_get _ (by rw [shaped.verifier]; omega)
    · rw [shifted] at sampled
      cases sampled

/-- Two anchors for one trainable position in front of the last block, which the mask leaves a gap behind. -/
theorem backboneForward_supervised_gap : ∃ anchors anchorValid out,
    selectAnchors [1, 0, 1] 2 2 [0] = some (anchors, anchorValid) ∧
      backboneForward { plainDrafter with blockSize := 2, sampleFromAnchor := false } (threeTokens [1, 0, 1] rfl) 2
        [0] = some out ∧
      DrawnAnchors [1, 0, 1] 2 2 anchors anchorValid ∧ out.alignedLossMask.length = 4 ∧
      ∀ j < 2, ∀ k < 2, ∃ p m, anchors[j]? = some p ∧
        SlotSupervised { plainDrafter with blockSize := 2, sampleFromAnchor := false } (threeTokens [1, 0, 1] rfl)
          anchorValid out j k p m :=
  backboneForward_supervised { plainDrafter with blockSize := 2, sampleFromAnchor := false }
    (threeTokens [1, 0, 1] rfl) 2 [0] (by decide) (by decide) ⟨rfl, rfl, by simp [threeTokens]⟩ (by decide +kernel)

end Slots

end DreamAifd.AnchorSelection
