import DreamAifd.SpecDecodeMetadata

/-! Rejection sampling of draft tokens. Two kernels share one output buffer with a row for every request: one
writes the rows of greedy requests, the other those of the rest. Probabilities and draws are rationals. -/
namespace DreamAifd.SpecDecode

open Segments

def placeholderTokenId : Int := -1

def greedyTemperature : ℚ := 0

/-! ### The kernels -/

/-- The verdict on a position: the token that is stored, and whether the draft was rejected. -/
abbrev Judge := Nat → Int × Bool

def loopBody (judge : Judge) (rowPtr : Nat) : (Nat → Int) × Bool → Nat → (Nat → Int) × Bool
  | (memory, rejected), pos =>
    if rejected then (memory, rejected)
    else (Function.update memory (rowPtr + pos) (judge pos).1, (judge pos).2)

/-- What both kernels do for a request, once the verdicts are given. -/
def sampleKernel (judge : Judge) (rowPtr numDraftTokens : Nat) (bonusTokenId : Int) (memory : Nat → Int) : Nat → Int :=
  let (memory, rejected) := (List.range numDraftTokens).foldl (loopBody judge rowPtr) (memory, false)
  if rejected then memory else Function.update memory (rowPtr + numDraftTokens) bonusTokenId

structure SamplingMetadata where
  temperature : List ℚ
  /-- Conditional rates of acceptance by position, in synthetic mode. -/
  syntheticConditionalRates : Option (List ℚ)

namespace SamplingMetadata

variable (sampling : SamplingMetadata)

def isGreedy (reqIdx : Nat) : Bool := sampling.temperature.getD reqIdx default == greedyTemperature
def allGreedy : Bool := sampling.temperature.all (· == greedyTemperature)
def allRandom : Bool := sampling.temperature.all (· != greedyTemperature)

end SamplingMetadata

structure SamplerInput where
  draftTokenIds : List Int
  numDraftTokens : List Nat
  cuNumDraftTokens : List Nat
  maxSpecLen : Nat
  targetArgmax : List Int
  bonusTokenIds : List Int
  /-- Rows of the draft's probabilities, where it gives any. -/
  draftProbs : Option (Nat → Nat → ℚ)
  targetProbs : Nat → Nat → ℚ
  recoveredTokenIds : List Int
  uniformProbs : List ℚ

namespace SamplerInput

variable (input : SamplerInput) (rates : Option (List ℚ))

def startIdx (reqIdx : Nat) : Nat := if reqIdx = 0 then 0 else input.cuNumDraftTokens.getD (reqIdx - 1) default

def numDrafts (reqIdx : Nat) : Nat := input.cuNumDraftTokens.getD reqIdx default - input.startIdx reqIdx

/-- A draft is kept where the target would choose it; in synthetic mode a draw decides. -/
def greedyJudge (startIdx : Nat) : Judge := fun pos =>
  let draftTokenId := input.draftTokenIds.getD (startIdx + pos) default
  let targetArgmaxId := input.targetArgmax.getD (startIdx + pos) default
  match rates with
  | some rates =>
    -- `-1` is a padded draft.
    let accepted := input.uniformProbs.getD (startIdx + pos) default < rates.getD pos default ∧ 0 ≤ draftTokenId
    (if accepted then draftTokenId else targetArgmaxId, ¬ accepted)
  | none => (targetArgmaxId, draftTokenId != targetArgmaxId)

def accepts (startIdx pos : Nat) (draftTokenId : Int) : Bool :=
  let uniformProb := input.uniformProbs.getD (startIdx + pos) default
  if draftTokenId < 0 then false
  else match rates with
    | some rates => uniformProb < rates.getD pos default
    | none =>
      let draftProb := match input.draftProbs with
        | none => 1
        | some probs => probs (startIdx + pos) draftTokenId.toNat
      let targetProb := input.targetProbs (startIdx + pos) draftTokenId.toNat
      0 < draftProb ∧ uniformProb ≤ targetProb / draftProb

/-- A draft is kept at the rate of its probabilities, and else a recovered token stands in its place. -/
def randomJudge (startIdx : Nat) : Judge := fun pos =>
  let draftTokenId := input.draftTokenIds.getD (startIdx + pos) default
  if input.accepts rates startIdx pos draftTokenId then (draftTokenId, false)
  else (input.recoveredTokenIds.getD (startIdx + pos) default, true)

def rejectionGreedySampleKernel (isGreedy : Nat → Bool) (memory : Nat → Int) (reqIdx : Nat) : Nat → Int :=
  if isGreedy reqIdx then
    sampleKernel (input.greedyJudge rates (input.startIdx reqIdx)) (reqIdx * (input.maxSpecLen + 1))
      (input.numDrafts reqIdx) (input.bonusTokenIds.getD reqIdx default) memory
  else memory

def rejectionRandomSampleKernel (isGreedy : Nat → Bool) (memory : Nat → Int) (reqIdx : Nat) : Nat → Int :=
  if isGreedy reqIdx then memory
  else sampleKernel (input.randomJudge rates (input.startIdx reqIdx)) (reqIdx * (input.maxSpecLen + 1))
    (input.numDrafts reqIdx) (input.bonusTokenIds.getD reqIdx default) memory

/-- `rejection_sample`: the programs of a launch write rows of their own, so their order does not matter. -/
def rejectionSample (sampling : SamplingMetadata) : Nat → Int :=
  let requests := List.range input.numDraftTokens.length
  let outputTokenIds := fun _ => placeholderTokenId
  let isGreedy := fun reqIdx => sampling.allGreedy || sampling.isGreedy reqIdx
  let outputTokenIds :=
    if sampling.allRandom then outputTokenIds
    else requests.foldl (input.rejectionGreedySampleKernel sampling.syntheticConditionalRates isGreedy) outputTokenIds
  if sampling.allGreedy then outputTokenIds
  else requests.foldl (input.rejectionRandomSampleKernel sampling.syntheticConditionalRates isGreedy) outputTokenIds

end SamplerInput

def validToken (vocabSize : Nat) (token : Int) : Bool := token != placeholderTokenId && token < vocabSize

/-- `parse_output`: the rows without placeholders. -/
def parseOutput (outputTokenIds : Nat → Int) (batchSize width vocabSize : Nat) (discardReqIndices : List Nat) :
    List (List Int) :=
  (List.range batchSize).map fun reqIdx =>
    if discardReqIndices.contains reqIdx then []
    else ((List.range width).map fun i => outputTokenIds (reqIdx * width + i)).filter (validToken vocabSize)

/-! ### What a request is owed -/

structure Drafted where
  greedy : Bool
  draftTokenIds : List Int
  targetArgmax : List Int
  bonusTokenId : Int
  draftProbs : Option (Nat → Nat → ℚ)
  targetProbs : Nat → Nat → ℚ
  recoveredTokenIds : List Int
  uniformProbs : List ℚ

namespace Drafted

variable (own : Drafted) (rates : Option (List ℚ))

def keeps (pos : Nat) : Bool :=
  let draft := own.draftTokenIds.getD pos default
  let draw := own.uniformProbs.getD pos default
  match own.greedy, rates with
  | true, none => draft = own.targetArgmax.getD pos default
  | _, some rates => 0 ≤ draft ∧ draw < rates.getD pos default
  | false, none =>
    let draftProb := own.draftProbs.elim 1 fun probs => probs pos draft.toNat
    0 ≤ draft ∧ 0 < draftProb ∧ draw ≤ own.targetProbs pos draft.toNat / draftProb

/-- The drafts in front of the first one that is not kept. -/
def kept : Nat := ((List.range own.draftTokenIds.length).takeWhile (own.keeps rates)).length

def replacement (pos : Nat) : Int :=
  if own.greedy then own.targetArgmax.getD pos default else own.recoveredTokenIds.getD pos default

/-- The drafts that are kept and one more token. -/
def newTokens : List Int :=
  own.draftTokenIds.take (own.kept rates) ++
    [if own.kept rates = own.draftTokenIds.length then own.bonusTokenId else own.replacement (own.kept rates)]

end Drafted

/-- The part of request `reqIdx`: its drafts stand behind those of the requests before it. -/
def SamplerInput.request (input : SamplerInput) (sampling : SamplingMetadata) (reqIdx : Nat) : Drafted :=
  let first := start input.numDraftTokens reqIdx
  let count := input.numDraftTokens.getD reqIdx 0
  { greedy := sampling.isGreedy reqIdx
    draftTokenIds := slice first count input.draftTokenIds
    targetArgmax := slice first count input.targetArgmax
    bonusTokenId := input.bonusTokenIds.getD reqIdx default
    draftProbs := input.draftProbs.map fun probs pos => probs (first + pos)
    targetProbs := fun pos => input.targetProbs (first + pos)
    recoveredTokenIds := slice first count input.recoveredTokenIds
    uniformProbs := slice first count input.uniformProbs }

/-! ### What a program writes -/

/-- The tokens of a request from `pos` on, with `left` drafts to go: those kept, and one more. -/
def outcome (judge : Judge) (bonusTokenId : Int) : Nat → Nat → List Int
  | _, 0 => [bonusTokenId]
  | pos, left + 1 =>
    if (judge pos).2 then [(judge pos).1] else (judge pos).1 :: outcome judge bonusTokenId (pos + 1) left

def writeAt (memory : Nat → Int) (ptr : Nat) : List Int → Nat → Int
  | [] => memory
  | token :: tokens => writeAt (Function.update memory ptr token) (ptr + 1) tokens

variable (judge : Judge) (bonusTokenId : Int)

theorem length_outcome (pos left : Nat) :
    1 ≤ (outcome judge bonusTokenId pos left).length ∧ (outcome judge bonusTokenId pos left).length ≤ left + 1 := by
  induction left generalizing pos with
  | zero => exact ⟨le_rfl, le_rfl⟩
  | succ left ih =>
    have rest := ih (pos + 1)
    rw [outcome]
    split
    · exact ⟨le_rfl, by simp⟩
    · rw [List.length_cons]
      omega

theorem writeAt_apply (memory : Nat → Int) (ptr : Nat) (tokens : List Int) (address : Nat) :
    writeAt memory ptr tokens address = if ptr ≤ address then tokens.getD (address - ptr) (memory address)
      else memory address := by
  induction tokens generalizing memory ptr with
  | nil => simp [writeAt]
  | cons token tokens ih =>
    rw [writeAt, ih]
    rcases Nat.lt_trichotomy address ptr with below | rfl | above
    · rw [if_neg (by omega), if_neg (by omega), Function.update_of_ne (Nat.ne_of_lt below)]
    · rw [if_neg (by omega), if_pos le_rfl, Function.update_self, Nat.sub_self, List.getD_cons_zero]
    · rw [if_pos (show ptr + 1 ≤ address from above), if_pos (Nat.le_of_lt above),
        Function.update_of_ne (Nat.ne_of_gt above),
        show address - ptr = address - (ptr + 1) + 1 by omega, List.getD_cons_succ]

theorem foldl_rejected (rowPtr : Nat) (positions : List Nat) (memory : Nat → Int) :
    positions.foldl (loopBody judge rowPtr) (memory, true) = (memory, true) := by
  induction positions with
  | nil => rfl
  | cons pos positions ih => exact ih

theorem loop_writes (rowPtr pos left : Nat) (memory : Nat → Int) :
    (let (memory, rejected) := (List.range' pos left).foldl (loopBody judge rowPtr) (memory, false)
      if rejected then memory else Function.update memory (rowPtr + (pos + left)) bonusTokenId) =
      writeAt memory (rowPtr + pos) (outcome judge bonusTokenId pos left) := by
  induction left generalizing pos memory with
  | zero => rfl
  | succ left ih =>
    rw [List.range'_succ, List.foldl_cons, outcome, loopBody, if_neg Bool.false_ne_true]
    cases verdict : (judge pos).2 with
    | true =>
      rw [foldl_rejected]
      rfl
    | false =>
      have rest := ih (pos + 1) (Function.update memory (rowPtr + pos) (judge pos).1)
      rw [show pos + 1 + left = pos + (left + 1) by omega] at rest
      exact rest

/-- A program writes what comes of its request, from the start of its row. -/
theorem sampleKernel_eq (rowPtr numDraftTokens : Nat) (memory : Nat → Int) :
    sampleKernel judge rowPtr numDraftTokens bonusTokenId memory =
      writeAt memory rowPtr (outcome judge bonusTokenId 0 numDraftTokens) := by
  have writes := loop_writes judge bonusTokenId rowPtr 0 numDraftTokens memory
  rw [← List.range_eq_range', Nat.zero_add] at writes
  exact writes

/-! ### What a launch writes -/

/-- Rows of one launch, each written by its own program. -/
theorem launch_row (width : Nat) (writes : Nat → List Int) (fits : ∀ row, (writes row).length ≤ width)
    (memory : Nat → Int) (batchSize : Nat) {row i : Nat} (inside : i < width) :
    (List.range batchSize).foldl (fun memory row => writeAt memory (row * width) (writes row)) memory (row * width + i) =
      if row < batchSize then (writes row).getD i (memory (row * width + i)) else memory (row * width + i) := by
  induction batchSize with
  | zero => rfl
  | succ batchSize ih =>
    rw [List.range_succ, List.foldl_append, List.foldl_cons, List.foldl_nil, writeAt_apply, ih]
    rcases Nat.lt_trichotomy row batchSize with before | rfl | after
    · have away : row * width + i < batchSize * width := calc
        row * width + i < row * width + width := Nat.add_lt_add_left inside _
        _ = (row + 1) * width := (Nat.succ_mul ..).symm
        _ ≤ batchSize * width := Nat.mul_le_mul_right _ before
      rw [if_neg (Nat.not_le.mpr away), if_pos before, if_pos (Nat.lt_succ_of_lt before)]
    · rw [if_pos (Nat.le_add_right ..), if_neg (Nat.lt_irrefl _), Nat.add_sub_cancel_left, if_pos (Nat.lt_succ_self _)]
    · have behind : (batchSize + 1) * width ≤ row * width := Nat.mul_le_mul_right _ after
      rw [Nat.succ_mul] at behind
      have long := fits batchSize
      rw [if_pos (by omega), List.getD_eq_getElem?_getD, List.getElem?_eq_none (by omega), Option.getD_none,
        if_neg (by omega), if_neg (by omega)]

namespace SamplerInput

variable (input : SamplerInput) (sampling : SamplingMetadata)

def judgeOf (reqIdx : Nat) : Judge :=
  if sampling.isGreedy reqIdx then input.greedyJudge sampling.syntheticConditionalRates (input.startIdx reqIdx)
  else input.randomJudge sampling.syntheticConditionalRates (input.startIdx reqIdx)

def sampled (reqIdx : Nat) : List Int :=
  outcome (input.judgeOf sampling reqIdx) (input.bonusTokenIds.getD reqIdx default) 0 (input.numDrafts reqIdx)

structure Shaped : Prop where
  cumulative : input.cuNumDraftTokens = cumulative 0 input.numDraftTokens
  short : ∀ n ∈ input.numDraftTokens, n ≤ input.maxSpecLen
  drafted : input.draftTokenIds.length = input.numDraftTokens.sum
  temperature : sampling.temperature.length = input.numDraftTokens.length

variable {input sampling}

theorem startIdx_eq (cumul : input.cuNumDraftTokens = Segments.cumulative 0 input.numDraftTokens) {reqIdx : Nat}
    (here : reqIdx < input.numDraftTokens.length) : input.startIdx reqIdx = start input.numDraftTokens reqIdx := by
  cases reqIdx with
  | zero => rfl
  | succ reqIdx =>
    rw [startIdx, if_neg (Nat.succ_ne_zero _), cumul, Nat.add_sub_cancel, List.getD_eq_getElem?_getD,
      getElem?_cumulative 0 _ (by omega), Option.getD_some, Nat.zero_add]

theorem numDrafts_eq (cumul : input.cuNumDraftTokens = Segments.cumulative 0 input.numDraftTokens) {reqIdx : Nat}
    (here : reqIdx < input.numDraftTokens.length) : input.numDrafts reqIdx = input.numDraftTokens[reqIdx] := by
  rw [numDrafts, startIdx_eq cumul here, cumul, List.getD_eq_getElem?_getD, getElem?_cumulative 0 _ here,
    Option.getD_some, Nat.zero_add, start, start, List.take_succ_eq_append_getElem here, List.sum_append,
    List.sum_singleton, Nat.add_sub_cancel_left]

theorem numDrafts_le (shaped : Shaped input sampling) (reqIdx : Nat) : input.numDrafts reqIdx ≤ input.maxSpecLen := by
  rcases Nat.lt_or_ge reqIdx input.numDraftTokens.length with here | beyond
  · rw [numDrafts_eq shaped.cumulative here]
    exact shaped.short _ (List.getElem_mem here)
  · have short : input.cuNumDraftTokens.length ≤ reqIdx := by rwa [shaped.cumulative, length_cumulative]
    have nothing : input.cuNumDraftTokens.getD reqIdx default = 0 := by
      rw [List.getD_eq_getElem?_getD, List.getElem?_eq_none short]
      rfl
    rw [numDrafts, nothing]
    omega

theorem length_writes (shaped : Shaped input sampling) (judge : Nat → Judge) (active : Nat → Bool) (reqIdx : Nat) :
    (if active reqIdx then outcome (judge reqIdx) (input.bonusTokenIds.getD reqIdx default) 0 (input.numDrafts reqIdx)
      else []).length ≤ input.maxSpecLen + 1 := by
  split
  · have long := (length_outcome (judge reqIdx) (input.bonusTokenIds.getD reqIdx default) 0 (input.numDrafts reqIdx)).2
    have few := numDrafts_le shaped reqIdx
    omega
  · exact Nat.zero_le _

/-- A launch writes the rows of the requests it is for, and keeps the others. -/
theorem launch_active (shaped : Shaped input sampling) (judge : Nat → Judge) (active : Nat → Bool)
    (kernel : (Nat → Int) → Nat → Nat → Int)
    (runs : ∀ memory reqIdx, kernel memory reqIdx = if active reqIdx then
      sampleKernel (judge reqIdx) (reqIdx * (input.maxSpecLen + 1)) (input.numDrafts reqIdx)
        (input.bonusTokenIds.getD reqIdx default) memory else memory)
    (memory : Nat → Int) {reqIdx i : Nat} (here : reqIdx < input.numDraftTokens.length)
    (inside : i < input.maxSpecLen + 1) :
    (List.range input.numDraftTokens.length).foldl kernel memory (reqIdx * (input.maxSpecLen + 1) + i) =
      if active reqIdx then (outcome (judge reqIdx) (input.bonusTokenIds.getD reqIdx default) 0
          (input.numDrafts reqIdx)).getD i (memory (reqIdx * (input.maxSpecLen + 1) + i))
      else memory (reqIdx * (input.maxSpecLen + 1) + i) := by
  have written : kernel = fun memory row => writeAt memory (row * (input.maxSpecLen + 1))
      (if active row then outcome (judge row) (input.bonusTokenIds.getD row default) 0 (input.numDrafts row) else []) := by
    funext memory row
    rw [runs]
    split
    · rw [sampleKernel_eq]
    · rfl
  rw [written, launch_row _ _ (length_writes shaped judge active) memory _ inside, if_pos here]
  split
  · rfl
  · rw [List.getD_nil]

/-- Where the row of a request is written by one of two launches, the other one has nothing for it. -/
theorem rejectionSample_row (shaped : Shaped input sampling) {reqIdx i : Nat}
    (here : reqIdx < input.numDraftTokens.length) (inside : i < input.maxSpecLen + 1) :
    input.rejectionSample sampling (reqIdx * (input.maxSpecLen + 1) + i) =
      (input.sampled sampling reqIdx).getD i placeholderTokenId := by
  have own : sampling.temperature.getD reqIdx default ∈ sampling.temperature := by
    rw [List.getD_eq_getElem _ _ (by rw [shaped.temperature]; exact here)]
    exact List.getElem_mem _
  unfold rejectionSample
  have greedy := launch_active shaped (fun r => input.greedyJudge sampling.syntheticConditionalRates (input.startIdx r))
    (fun r => sampling.allGreedy || sampling.isGreedy r)
    (input.rejectionGreedySampleKernel sampling.syntheticConditionalRates
      fun r => sampling.allGreedy || sampling.isGreedy r) (fun _ _ => rfl) (fun _ => placeholderTokenId) here inside
  have random := launch_active shaped (fun r => input.randomJudge sampling.syntheticConditionalRates (input.startIdx r))
    (fun r => !(sampling.allGreedy || sampling.isGreedy r))
    (input.rejectionRandomSampleKernel sampling.syntheticConditionalRates
      fun r => sampling.allGreedy || sampling.isGreedy r)
    (fun memory r => by
      rw [rejectionRandomSampleKernel]
      cases sampling.allGreedy || sampling.isGreedy r <;> rfl)
  rw [sampled, judgeOf]
  cases way : sampling.isGreedy reqIdx with
  | true =>
    -- Its temperature is zero, so the first launch is not left out.
    have some_greedy : sampling.allRandom = false := by
      rw [SamplingMetadata.allRandom, List.all_eq_false]
      exact ⟨_, own, by simpa [SamplingMetadata.isGreedy] using way⟩
    rw [way, Bool.or_true, if_pos rfl] at greedy
    simp only [some_greedy, Bool.false_eq_true, if_false, if_true]
    split
    · exact greedy
    · rw [random _ here inside, way, Bool.or_true, if_neg (by decide), greedy]
  | false =>
    have some_random : sampling.allGreedy = false := by
      rw [SamplingMetadata.allGreedy, List.all_eq_false]
      exact ⟨_, own, by simpa [SamplingMetadata.isGreedy] using way⟩
    rw [way, some_random, Bool.or_false, if_neg Bool.false_ne_true] at greedy
    simp only [some_random, Bool.false_or, Bool.false_eq_true, if_false] at greedy random ⊢
    rw [random _ here inside, way, if_pos (by decide)]
    split
    · rfl
    · rw [greedy]

theorem filter_padded {vocabSize width : Nat} {tokens : List Int} (short : tokens.length ≤ width) :
    ((List.range width).map fun i => tokens.getD i placeholderTokenId).filter (validToken vocabSize) =
      tokens.filter (validToken vocabSize) := by
  obtain ⟨rest, rfl⟩ := Nat.exists_eq_add_of_le short
  rw [List.range_add, List.map_append, List.filter_append, ← eq_map_range_getD tokens placeholderTokenId rfl]
  refine (congrArg (_ ++ ·) (List.filter_eq_nil_iff.mpr fun token member => ?_)).trans (List.append_nil _)
  obtain ⟨i, beyond, rfl⟩ := List.mem_map.mp member
  obtain ⟨k, _, rfl⟩ := List.mem_map.mp beyond
  rw [List.getD_eq_getElem?_getD, List.getElem?_eq_none (Nat.le_add_right ..), Option.getD_none]
  simp [validToken]

/-- Every row without its placeholders. -/
theorem parseOutput_eq (shaped : Shaped input sampling) (vocabSize : Nat) (discardReqIndices : List Nat) :
    parseOutput (input.rejectionSample sampling) input.numDraftTokens.length (input.maxSpecLen + 1) vocabSize
        discardReqIndices =
      (List.range input.numDraftTokens.length).map fun reqIdx =>
        if discardReqIndices.contains reqIdx then []
        else (input.sampled sampling reqIdx).filter (validToken vocabSize) := by
  refine List.map_congr_left fun reqIdx member => ?_
  have here := List.mem_range.mp member
  have row : ((List.range (input.maxSpecLen + 1)).map fun i =>
      input.rejectionSample sampling (reqIdx * (input.maxSpecLen + 1) + i)) =
      (List.range (input.maxSpecLen + 1)).map fun i => (input.sampled sampling reqIdx).getD i placeholderTokenId :=
    List.map_congr_left fun i inside => rejectionSample_row shaped here (List.mem_range.mp inside)
  have long := (length_outcome (input.judgeOf sampling reqIdx) (input.bonusTokenIds.getD reqIdx default) 0
    (input.numDrafts reqIdx)).2
  have few := numDrafts_le shaped reqIdx
  rw [row, filter_padded (show (input.sampled sampling reqIdx).length ≤ _ from long.trans (Nat.succ_le_succ few))]

/-- What a program leaves in its row: the drafts up to the first one that is not kept, and one more token. -/
theorem outcome_eq {judge : Judge} (bonusTokenId : Int) {drafts : List Int} {keeps : Nat → Bool} {replacement : Nat → Int}
    (judged : ∀ pos, (here : pos < drafts.length) →
      judge pos = if keeps pos then (drafts[pos], false) else (replacement pos, true))
    (pos left : Nat) (rest : pos + left = drafts.length) :
    outcome judge bonusTokenId pos left =
      (drafts.drop pos).take ((List.range' pos left).takeWhile keeps).length ++
        [if ((List.range' pos left).takeWhile keeps).length = left then bonusTokenId
          else replacement (pos + ((List.range' pos left).takeWhile keeps).length)] := by
  induction left generalizing pos with
  | zero => simp [outcome]
  | succ left ih =>
    have here : pos < drafts.length := by omega
    rw [outcome, judged pos here, List.range'_succ, List.takeWhile_cons]
    cases keeps pos with
    | true =>
      rw [if_pos rfl, if_neg Bool.false_ne_true, if_pos rfl, ih (pos + 1) (by omega), List.drop_eq_getElem_cons here,
        List.length_cons, List.take_succ_cons, List.cons_append]
      simp only [Nat.add_right_cancel_iff, Nat.add_assoc, Nat.add_comm 1]
    | false => simp

theorem accepts_some (rates : List ℚ) (first pos : Nat) (draft : Int) :
    input.accepts (some rates) first pos draft =
      decide (0 ≤ draft ∧ input.uniformProbs.getD (first + pos) default < rates.getD pos default) := by
  unfold accepts
  dsimp only
  split
  next padded => rw [decide_eq_false fun kept => by omega]
  next real => simp [Int.not_lt.mp real]

theorem accepts_none (first pos : Nat) (draft : Int) :
    input.accepts none first pos draft =
      decide (0 ≤ draft ∧ 0 < input.draftProbs.elim 1 (fun probs => probs (first + pos) draft.toNat) ∧
        input.uniformProbs.getD (first + pos) default ≤ input.targetProbs (first + pos) draft.toNat /
          input.draftProbs.elim 1 fun probs => probs (first + pos) draft.toNat) := by
  unfold accepts
  dsimp only
  split
  next padded => rw [decide_eq_false fun kept => by omega]
  next real => cases input.draftProbs <;> simp [Int.not_lt.mp real]

/-- The verdict of a request's program on a draft is what the request is owed. -/
theorem request_judged (shaped : Shaped input sampling) {reqIdx : Nat} (here : reqIdx < input.numDraftTokens.length)
    {pos : Nat} (small : pos < (input.request sampling reqIdx).draftTokenIds.length) :
    input.judgeOf sampling reqIdx pos =
      if (input.request sampling reqIdx).keeps sampling.syntheticConditionalRates pos
      then ((input.request sampling reqIdx).draftTokenIds[pos], false)
      else ((input.request sampling reqIdx).replacement pos, true) := by
  have own : pos < input.numDraftTokens.getD reqIdx 0 := small.trans_le (List.length_take_le _ _)
  have draft : (input.request sampling reqIdx).draftTokenIds[pos] =
      input.draftTokenIds.getD (start input.numDraftTokens reqIdx + pos) default := by
    rw [← List.getD_eq_getElem _ default small]
    exact getD_slice own _ _
  rw [draft, judgeOf, startIdx_eq shaped.cumulative here]
  simp only [request, Drafted.keeps, Drafted.replacement, getD_slice own]
  cases way : sampling.isGreedy reqIdx with
  | true =>
    rw [if_pos rfl]
    unfold greedyJudge
    generalize input.draftTokenIds.getD (start input.numDraftTokens reqIdx + pos) default = draft
    generalize input.targetArgmax.getD (start input.numDraftTokens reqIdx + pos) default = target
    generalize input.uniformProbs.getD (start input.numDraftTokens reqIdx + pos) default = draw
    cases sampling.syntheticConditionalRates with
    | none => by_cases same : draft = target <;> simp [same]
    | some rates =>
      dsimp only
      by_cases kept : draw < rates.getD pos default ∧ 0 ≤ draft
      · rw [if_pos kept, if_pos (decide_eq_true kept.symm), decide_eq_false (not_not.mpr kept)]
      · rw [if_neg kept, if_neg fun yes => kept (of_decide_eq_true yes).symm,
          decide_eq_true kept]
        rfl
  | false =>
    rw [if_neg Bool.false_ne_true]
    unfold randomJudge
    dsimp only
    cases sampling.syntheticConditionalRates with
    | none =>
      rw [accepts_none]
      cases input.draftProbs <;> rfl
    | some rates =>
      rw [accepts_some]
      rfl

/-- A request is sampled from its own part of the batch. -/
theorem sampled_eq_newTokens (shaped : Shaped input sampling) {reqIdx : Nat}
    (here : reqIdx < input.numDraftTokens.length) :
    input.sampled sampling reqIdx = (input.request sampling reqIdx).newTokens sampling.syntheticConditionalRates := by
  have size : (input.request sampling reqIdx).draftTokenIds.length = input.numDraftTokens[reqIdx] := by
    have inside := start_add_length_le here
    rw [← shaped.drafted] at inside
    rw [request, slice, List.length_take, List.length_drop, List.getD_eq_getElem _ _ here]
    omega
  rw [sampled, numDrafts_eq shaped.cumulative here, ← size,
    outcome_eq _ (fun pos small => request_judged shaped here small) 0 _ (Nat.zero_add _), Drafted.newTokens,
    Drafted.kept, List.range_eq_range', List.drop_zero, Nat.zero_add]
  rfl

/-- A program changes words of one row only. -/
theorem sampleKernel_frame (shaped : Shaped input sampling) (judge : Judge) (bonusTokenId : Int) (memory : Nat → Int)
    {reqIdx address : Nat} (changed : sampleKernel judge (reqIdx * (input.maxSpecLen + 1)) (input.numDrafts reqIdx)
      bonusTokenId memory address ≠ memory address) : address / (input.maxSpecLen + 1) = reqIdx := by
  have long := (length_outcome judge bonusTokenId 0 (input.numDrafts reqIdx)).2
  have few := numDrafts_le shaped reqIdx
  rw [sampleKernel_eq, writeAt_apply] at changed
  split at changed
  next after =>
    have before : address - reqIdx * (input.maxSpecLen + 1) < input.maxSpecLen + 1 := by
      by_contra beyond
      rw [List.getD_eq_default _ _ (by omega)] at changed
      exact changed rfl
    refine Nat.div_eq_of_lt_le after ?_
    rw [Nat.succ_mul]
    omega
  next => exact absurd rfl changed

/-- Every request of a batch gets what comes of its own drafts, whoever else is in the batch and however they are
sampled. A program of either kernel writes into the row of its own request, and only one of the kernels does. -/
theorem parseOutput_rejectionSample (shaped : Shaped input sampling) (vocabSize : Nat) (discardReqIndices : List Nat) :
    parseOutput (input.rejectionSample sampling) input.numDraftTokens.length (input.maxSpecLen + 1) vocabSize
        discardReqIndices =
      ((List.range input.numDraftTokens.length).map fun reqIdx =>
        if discardReqIndices.contains reqIdx then []
        else ((input.request sampling reqIdx).newTokens sampling.syntheticConditionalRates).filter
          (validToken vocabSize)) ∧
    ∀ (isGreedy : Nat → Bool) (memory : Nat → Int) (reqIdx address : Nat),
      (input.rejectionGreedySampleKernel sampling.syntheticConditionalRates isGreedy memory reqIdx address ≠
          memory address → isGreedy reqIdx = true ∧ address / (input.maxSpecLen + 1) = reqIdx) ∧
      (input.rejectionRandomSampleKernel sampling.syntheticConditionalRates isGreedy memory reqIdx address ≠
          memory address → isGreedy reqIdx = false ∧ address / (input.maxSpecLen + 1) = reqIdx) := by
  refine ⟨?_, fun isGreedy memory reqIdx address => ⟨fun changed => ?_, fun changed => ?_⟩⟩
  · rw [parseOutput_eq shaped]
    refine List.map_congr_left fun reqIdx member => ?_
    rw [sampled_eq_newTokens shaped (List.mem_range.mp member)]
  · rw [rejectionGreedySampleKernel] at changed
    split at changed
    next greedy => exact ⟨greedy, sampleKernel_frame shaped _ _ _ changed⟩
    next => exact absurd rfl changed
  · rw [rejectionRandomSampleKernel] at changed
    split at changed
    next => exact absurd rfl changed
    next random => exact ⟨Bool.eq_false_of_not_eq_true random, sampleKernel_frame shaped _ _ _ changed⟩

/-- Two drafts of a greedy request, the second one wrong, and one of a request that is drawn. -/
def sampleInput : SamplerInput :=
  ⟨[5, 6, 7], [2, 1], [2, 3], 2, [5, 8, 4], [9, 3], none, fun _ _ => 1 / 2, [0, 0, 2], [0, 0, 1 / 4]⟩

theorem parseOutput_rejectionSample_two :
    parseOutput (sampleInput.rejectionSample ⟨[0, 1], none⟩) 2 3 10 [] = [[5, 8], [7, 3]] := by
  have shaped : Shaped sampleInput ⟨[0, 1], none⟩ := ⟨rfl, by decide, rfl, rfl⟩
  exact (parseOutput_rejectionSample shaped 10 []).1.trans (by decide +kernel)

end SamplerInput

end DreamAifd.SpecDecode
