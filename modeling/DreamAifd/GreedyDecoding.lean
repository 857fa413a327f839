import DreamAifd.MinTokens
import DreamAifd.RejectionSampler

/-! One step of greedy requests with drafts: the scheduled tokens of a batch are packed, and the last rows of every
request are sampled from. The model is causal: a row of logits depends on the tokens before it. -/
namespace DreamAifd.SpecDecode

open Segments

variable {vocabSize : Nat} (model : List Int → Row vocabSize) (argmax : Row vocabSize → Fin vocabSize)

/-! ### Decoding without drafts -/

def greedyToken (row : Row vocabSize) : Int := (argmax row).val

def next (tokens : List Int) : Int := greedyToken argmax (model tokens)

/-- `n` more tokens, one after the other. -/
def decode (tokens : List Int) : Nat → List Int
  | 0 => tokens
  | n + 1 => decode (tokens ++ [next model argmax tokens]) n

/-- What is kept of the drafts behind `tokens`: as many as the model would choose itself, and one more token. -/
def verified (tokens : List Int) : List Int → List Int
  | [] => [next model argmax tokens]
  | draft :: drafts =>
    next model argmax tokens ::
      if draft = next model argmax tokens then verified (tokens ++ [draft]) drafts else []

theorem decode_succ (tokens : List Int) (n : Nat) :
    decode model argmax tokens (n + 1) =
      decode model argmax tokens n ++ [next model argmax (decode model argmax tokens n)] := by
  induction n generalizing tokens with
  | zero => rfl
  | succ n ih => exact ih (tokens ++ [next model argmax tokens])

/-- Every one of the new tokens is the one that the model chooses after those before it. -/
def Chosen : List Int → List Int → Prop
  | _, [] => True
  | tokens, token :: newTokens => token = next model argmax tokens ∧ Chosen (tokens ++ [token]) newTokens

/-- Drafts change how many tokens a step yields, and never which. -/
theorem chosen_verified (tokens drafts : List Int) :
    Chosen model argmax tokens (verified model argmax tokens drafts) := by
  induction drafts generalizing tokens with
  | nil => exact ⟨rfl, trivial⟩
  | cons draft drafts ih =>
    refine ⟨rfl, ?_⟩
    split
    next agrees => exact agrees ▸ ih (tokens ++ [draft])
    · trivial

theorem length_verified (tokens drafts : List Int) :
    1 ≤ (verified model argmax tokens drafts).length ∧ (verified model argmax tokens drafts).length ≤ drafts.length + 1 := by
  induction drafts generalizing tokens with
  | nil => exact ⟨le_rfl, le_rfl⟩
  | cons draft drafts ih =>
    have rest := ih (tokens ++ [draft])
    rw [verified]
    split
    · rw [List.length_cons, List.length_cons]
      omega
    · exact ⟨le_rfl, by simp⟩

/-- All but the last of the new tokens are drafts. -/
theorem verified_agrees {tokens drafts : List Int} {j : Nat}
    (kept : j + 1 < (verified model argmax tokens drafts).length) :
    drafts[j]? = (verified model argmax tokens drafts)[j]? := by
  induction drafts generalizing tokens j with
  | nil => exact absurd kept (by simp [verified])
  | cons draft drafts ih =>
    rw [verified] at kept ⊢
    split at kept
    next agrees =>
      cases j with
      | zero => rw [List.getElem?_cons_zero, List.getElem?_cons_zero, agrees]
      | succ j =>
        have earlier : j + 1 < (verified model argmax (tokens ++ [draft]) drafts).length := Nat.lt_of_succ_lt_succ kept
        rw [if_pos agrees, List.getElem?_cons_succ, List.getElem?_cons_succ, ih earlier]
    · exact absurd kept (by simp)

theorem mem_verified {tokens drafts : List Int} {token : Int} (member : token ∈ verified model argmax tokens drafts) :
    validToken vocabSize token = true := by
  have chosen (row : List Int) : validToken vocabSize (next model argmax row) = true := by
    have small := (argmax (model row)).isLt
    rw [validToken, Bool.and_eq_true, bne_iff_ne, decide_eq_true_iff, next, greedyToken, placeholderTokenId]
    omega
  induction drafts generalizing tokens with
  | nil => exact List.mem_singleton.mp member ▸ chosen tokens
  | cons draft drafts ih =>
    rcases List.mem_cons.mp member with rfl | later
    · exact chosen tokens
    · split at later
      · exact ih later
      · exact absurd later List.not_mem_nil

theorem length_decode (tokens : List Int) (n : Nat) : (decode model argmax tokens n).length = tokens.length + n := by
  induction n generalizing tokens with
  | zero => rfl
  | succ n ih =>
    rw [decode, ih, List.length_append, List.length_singleton]
    omega

/-! ### One step of the model runner -/

/-- What sampling keeps to for a request, whatever is drafted: stop tokens only behind `minTokens` outputs. -/
def withMinTokens (numPromptTokens minTokens : Nat) (allStopTokenIds : List Int) : List Int → Row vocabSize :=
  fun tokens =>
    if tokens.length - numPromptTokens < minTokens then mask allStopTokenIds (model tokens) else model tokens

/-- A request of a batch: its tokens so far, the drafts behind them, and the part that is scheduled. -/
structure Scheduled where
  numPromptTokens : Nat
  minTokens : Nat
  allStopTokenIds : List Int
  tokens : List Int
  drafts : List Int
  numComputedTokens : Nat
  numScheduledTokens : Nat

namespace Scheduled

variable (x : Scheduled)

def inputIds : List Int := slice x.numComputedTokens x.numScheduledTokens (x.tokens ++ x.drafts)

/-- One row for every scheduled token, that of the tokens up to it. -/
def logits : List (Row vocabSize) :=
  (List.range x.numScheduledTokens).map fun i => model ((x.tokens ++ x.drafts).take (x.numComputedTokens + i + 1))

def minToks : MinTokens := ⟨x.minTokens, x.tokens.length - x.numPromptTokens, x.allStopTokenIds⟩

def target : List Int → Row vocabSize := withMinTokens model x.numPromptTokens x.minTokens x.allStopTokenIds

/-- `discard_request_mask`: the request still has tokens to be computed. -/
def discarded : Bool := x.numComputedTokens + x.numScheduledTokens < x.tokens.length

/-- What the scheduler keeps to: either all tokens and drafts are computed, or a part of the tokens alone. -/
structure Planned : Prop where
  prompted : x.numPromptTokens ≤ x.tokens.length
  room : x.drafts.length < x.numScheduledTokens
  ends : x.numComputedTokens + x.numScheduledTokens = x.tokens.length + x.drafts.length ∨
    x.drafts = [] ∧ x.numComputedTokens + x.numScheduledTokens < x.tokens.length

/-- The drafts do not take the request past its `minTokens`: the bonus row is masked by the outputs in front of them. -/
def Clear : Prop :=
  x.minTokens ≤ x.tokens.length - x.numPromptTokens ∨
    x.tokens.length - x.numPromptTokens + x.drafts.length < x.minTokens

end Scheduled

/-- Every request of the batch is greedy, so nothing is drawn. -/
def samplerInput (minToks : List MinTokens) (metadata : SpecDecodeMetadata) (logits : List (Row vocabSize)) :
    SamplerInput where
  draftTokenIds := metadata.draftTokenIds
  numDraftTokens := metadata.numDraftTokens
  cuNumDraftTokens := metadata.cuNumDraftTokens
  maxSpecLen := metadata.numDraftTokens.foldr max 0
  targetArgmax := (MinTokensLogitsProcessor.applyWithSpecDecode minToks metadata.numDraftTokens
    (gather logits metadata.targetLogitsIndices)).map (greedyToken argmax)
  bonusTokenIds := (MinTokensLogitsProcessor.apply minToks (gather logits metadata.bonusLogitsIndices)).map
    (greedyToken argmax)
  draftProbs := none
  targetProbs := fun _ _ => 0
  recoveredTokenIds := []
  uniformProbs := []

def sampleTokens (rows : List (Row vocabSize)) (batch : List Scheduled) : List (List Int) :=
  let cuNumTokens := (getCumsumAndArange (batch.map (·.numScheduledTokens))).1
  let discardReqIndices := (List.range batch.length).filter fun i => (batch[i]?.map (·.discarded)).getD false
  let minToks := batch.map (·.minToks)
  if batch.all (·.drafts = []) then
    -- No request has drafts: the last row of each is sampled from.
    let sampledTokenIds := (MinTokensLogitsProcessor.apply minToks (gather rows (cuNumTokens.map (· - 1)))).map
      (greedyToken argmax)
    sampledTokenIds.mapIdx fun i token => if discardReqIndices.contains i then [] else [token]
  else
    let metadata := calcSpecDecodeMetadata (batch.flatMap (·.inputIds)) (batch.map (·.drafts.length)) cuNumTokens
    let input := samplerInput argmax minToks metadata (gather rows metadata.logitsIndices)
    parseOutput (input.rejectionSample ⟨batch.map fun _ => greedyTemperature, none⟩) batch.length (input.maxSpecLen + 1)
      vocabSize discardReqIndices

/-! ### A step without and with drafts -/

variable {model argmax}

namespace Scheduled

variable {x : Scheduled}

theorem length_inputIds (planned : x.Planned) : x.inputIds.length = x.numScheduledTokens := by
  rcases planned.ends with whole | ⟨none_drafted, part⟩
  · rw [inputIds, slice, List.length_take, List.length_drop, List.length_append]
    omega
  · rw [inputIds, slice, List.length_take, List.length_drop, List.length_append, none_drafted, List.length_nil]
    omega

theorem length_logits : (x.logits model).length = x.numScheduledTokens := by
  rw [logits, List.length_map, List.length_range]

def lastPlace (x : Scheduled) : Nat := x.numScheduledTokens - (x.drafts.length + 1)

theorem lastPlace_add (planned : x.Planned) : x.lastPlace + (x.drafts.length + 1) = x.numScheduledTokens := by
  have room := planned.room
  rw [lastPlace]
  omega

theorem whole (planned : x.Planned) (kept : x.discarded = false) :
    x.numComputedTokens + x.numScheduledTokens = x.tokens.length + x.drafts.length := by
  rcases planned.ends with whole | ⟨_, part⟩
  · exact whole
  · exact absurd part (of_decide_eq_false kept)

/-- The drafts stand behind the last token that is scheduled. -/
theorem slice_inputIds (planned : x.Planned) :
    slice 1 x.drafts.length (slice x.lastPlace (x.drafts.length + 1) x.inputIds) = x.drafts := by
  have room := planned.room
  rcases planned.ends with whole | ⟨none_drafted, _⟩
  · apply List.ext_getElem
    · have size := length_inputIds planned
      rw [slice, slice, List.length_take, List.length_drop, List.length_take, List.length_drop, size, lastPlace]
      omega
    · intro i here there
      have place : x.numComputedTokens + (x.lastPlace + (1 + i)) = x.tokens.length + i := by
        rw [lastPlace]
        omega
      simp only [slice, inputIds, List.getElem_take, List.getElem_drop, place]
      rw [List.getElem_append_right (Nat.le_add_right ..)]
      simp
  · rw [none_drafted]
    rfl

theorem slice_logits (planned : x.Planned) (kept : x.discarded = false) :
    slice x.lastPlace (x.drafts.length + 1) (x.logits model) =
      (List.range (x.drafts.length + 1)).map fun i => model (x.tokens ++ x.drafts.take i) := by
  have whole := whole planned kept
  have last := lastPlace_add planned
  rw [logits, slice_map_range _ (Nat.le_of_eq last)]
  refine List.map_congr_left fun i _ => ?_
  rw [show x.numComputedTokens + (x.lastPlace + i) + 1 = x.tokens.length + i by omega,
    List.take_length_add_append]

/-- Behind `j` drafts, outputs enough are `j` fewer. -/
theorem target_drafts (prompted : x.numPromptTokens ≤ x.tokens.length) {j : Nat} (some_drafts : j ≤ x.drafts.length) :
    x.target model (x.tokens ++ x.drafts.take j) =
      if j < x.minToks.minTokens - x.minToks.numOutputTokens
        then mask x.minToks.allStopTokenIds (model (x.tokens ++ x.drafts.take j))
      else model (x.tokens ++ x.drafts.take j) := by
  have size : (x.tokens ++ x.drafts.take j).length = x.tokens.length + j := by
    rw [List.length_append, List.length_take, Nat.min_eq_left some_drafts]
  rw [target, withMinTokens, size]
  refine if_congr ?_ rfl rfl
  dsimp only [minToks]
  omega

/-- The bonus row goes by the outputs before the step. -/
theorem target_bonus (prompted : x.numPromptTokens ≤ x.tokens.length) (clear : x.Clear) :
    x.target model (x.tokens ++ x.drafts) =
      if x.minToks.numOutputTokens < x.minToks.minTokens
        then mask x.minToks.allStopTokenIds (model (x.tokens ++ x.drafts))
      else model (x.tokens ++ x.drafts) := by
  rw [target, withMinTokens, List.length_append]
  refine if_congr ?_ rfl rfl
  dsimp only [minToks]
  rcases clear with enough | few
  · omega
  · omega

end Scheduled

theorem outcome_verified {judge : Judge} {bonusTokenId : Int} (tokens drafts : List Int)
    (judged : ∀ pos, (here : pos < drafts.length) → judge pos =
      (next model argmax (tokens ++ drafts.take pos), drafts[pos] != next model argmax (tokens ++ drafts.take pos)))
    (bonus : bonusTokenId = next model argmax (tokens ++ drafts)) (pos left : Nat) (rest : pos + left = drafts.length) :
    outcome judge bonusTokenId pos left = verified model argmax (tokens ++ drafts.take pos) (drafts.drop pos) := by
  induction left generalizing pos with
  | zero =>
    rw [Nat.add_zero] at rest
    rw [rest, List.drop_length, List.take_length, outcome, verified, bonus]
  | succ left ih =>
    have here : pos < drafts.length := by omega
    rw [outcome, judged pos here, List.drop_eq_getElem_cons here, verified]
    split
    next differs => rw [if_neg (by simpa using differs)]
    next agrees =>
      rw [if_pos (by simpa using agrees), ih (pos + 1) (by omega), List.take_succ_eq_append_getElem here,
        List.append_assoc]

section Batch

variable {batch : List Scheduled}

theorem discarded_iff {k : Nat} (here : k < batch.length) :
    ((List.range batch.length).filter fun i => (batch[i]?.map (·.discarded)).getD false).contains k =
      batch[k].discarded := by
  rw [Bool.eq_iff_iff, List.contains_iff_mem, List.mem_filter, List.mem_range, List.getElem?_eq_getElem here]
  exact and_iff_right here

/-- The metadata of the batch, request by request. -/
theorem metadata_spec (planned : ∀ x ∈ batch, x.Planned) (rows : Scheduled → List (Row vocabSize))
    (size : ∀ x ∈ batch, (rows x).length = x.numScheduledTokens) :
    let metadata := calcSpecDecodeMetadata (batch.flatMap (·.inputIds)) (batch.map (·.drafts.length))
      (getCumsumAndArange (batch.map (·.numScheduledTokens))).1
    let logits := gather (batch.flatMap rows) metadata.logitsIndices
    metadata.draftTokenIds = batch.flatMap (·.drafts) ∧
      gather logits metadata.targetLogitsIndices =
        batch.flatMap (fun x => slice 0 x.drafts.length (slice x.lastPlace (x.drafts.length + 1) (rows x))) ∧
      gather logits metadata.bonusLogitsIndices =
        batch.map fun x => (slice x.lastPlace (x.drafts.length + 1) (rows x)).getD x.drafts.length default := by
  intro metadata logits
  have window : ∀ {β : Type} (f : Scheduled → List β), (∀ x ∈ batch, (f x).length = x.numScheduledTokens) →
      ∀ x ∈ batch, (slice x.lastPlace (x.drafts.length + 1) (f x)).length = x.drafts.length + 1 := by
    intro β f sizes x member
    have last := x.lastPlace_add (planned x member)
    have long := sizes x member
    rw [slice, List.length_take, List.length_drop]
    omega
  have sampledPlaces : metadata.logitsIndices =
      windowIndices (bases (·.numScheduledTokens) Scheduled.lastPlace 0 batch) (batch.map (·.drafts.length + 1)) := by
    rw [← zipWith_cumulative (·.numScheduledTokens) Scheduled.lastPlace (·.drafts.length + 1) batch 0
      fun x member => x.lastPlace_add (planned x member)]
    simp only [metadata, calcSpecDecodeMetadata, List.map_map, windowIndices]
    rfl
  have targetPlaces : metadata.targetLogitsIndices =
      windowIndices (bases (·.drafts.length + 1) (fun _ => 0) 0 batch) (batch.map (·.drafts.length)) := by
    rw [← zipWith_cumulative (·.drafts.length + 1) (fun _ => 0) (·.drafts.length + 1) batch 0
      fun x _ => Nat.zero_add _]
    simp only [metadata, calcSpecDecodeMetadata, List.map_map, windowIndices]
    rfl
  have bonusPlaces : metadata.bonusLogitsIndices = bases (·.drafts.length + 1) (·.drafts.length) 0 batch := by
    rw [← map_pred_cumulative (·.drafts.length + 1) (·.drafts.length) batch 0 fun x _ => rfl]
    simp only [metadata, calcSpecDecodeMetadata, List.map_map]
    rfl
  have gathered : ∀ {β : Type} [Inhabited β] (f : Scheduled → List β),
      (∀ x ∈ batch, (f x).length = x.numScheduledTokens) → gather (batch.flatMap f) metadata.logitsIndices =
        batch.flatMap fun x => slice x.lastPlace (x.drafts.length + 1) (f x) := by
    intro β _ f sizes
    rw [sampledPlaces, bases_congr (fun x member => (sizes x member).symm) (fun _ _ => rfl),
      gather_windows f Scheduled.lastPlace (·.drafts.length + 1) batch fun x member =>
        Nat.le_of_eq ((x.lastPlace_add (planned x member)).trans (sizes x member).symm)]
  have ids : ∀ x ∈ batch, x.inputIds.length = x.numScheduledTokens := fun x member =>
    x.length_inputIds (planned x member)
  refine ⟨?_, ?_, ?_⟩
  · have drafted : metadata.draftTokenIds = gather (gather (batch.flatMap (·.inputIds)) metadata.logitsIndices)
        (metadata.targetLogitsIndices.map (· + 1)) := rfl
    rw [drafted, gathered _ ids, targetPlaces, map_succ_windowIndices, map_succ_bases,
      bases_congr (fun x member => (window _ ids x member).symm) (fun _ _ => rfl), gather_windows _ _ _ _ ?_]
    · exact List.flatMap_congr fun x member => x.slice_inputIds (planned x member)
    · intro x member
      have long := window _ ids x member
      omega
  · rw [show logits = _ from gathered rows size, targetPlaces,
      bases_congr (fun x member => (window rows size x member).symm) (fun _ _ => rfl), gather_windows _ _ _ _ ?_]
    intro x member
    have long := window rows size x member
    omega
  · rw [show logits = _ from gathered rows size, bonusPlaces,
      bases_congr (fun x member => (window rows size x member).symm) (fun _ _ => rfl), gather_bases _ _ _ ?_]
    intro x member
    have long := window rows size x member
    omega

/-- What is sampled for a request, from the rows that are its own. -/
theorem sampled_eq (planned : ∀ x ∈ batch, x.Planned) {k : Nat} (inside : k < batch.length)
    (kept : batch[k].discarded = false) (clear : batch[k].Clear) {metadata : SpecDecodeMetadata}
    {logits : List (Row vocabSize)} (counts : metadata.numDraftTokens = batch.map (·.drafts.length))
    (cumul : metadata.cuNumDraftTokens = cumulative 0 metadata.numDraftTokens)
    (draft_eq : metadata.draftTokenIds = batch.flatMap (·.drafts))
    (target_eq : gather logits metadata.targetLogitsIndices = batch.flatMap fun x =>
      slice 0 x.drafts.length (slice x.lastPlace (x.drafts.length + 1) (x.logits model)))
    (bonus_eq : gather logits metadata.bonusLogitsIndices = batch.map fun x =>
      (slice x.lastPlace (x.drafts.length + 1) (x.logits model)).getD x.drafts.length default) :
    (samplerInput argmax (batch.map (·.minToks)) metadata logits).sampled ⟨batch.map fun _ => greedyTemperature, none⟩ k =
      verified (batch[k].target model) argmax batch[k].tokens batch[k].drafts := by
  set input := samplerInput argmax (batch.map (·.minToks)) metadata logits with input_def
  have own := planned _ (List.getElem_mem inside)
  have prompted := own.prompted
  have rows : slice batch[k].lastPlace (batch[k].drafts.length + 1) (batch[k].logits model) =
      (List.range (batch[k].drafts.length + 1)).map fun i => model (batch[k].tokens ++ batch[k].drafts.take i) :=
    batch[k].slice_logits own kept
  have here : k < input.numDraftTokens.length := by
    rw [show input.numDraftTokens = _ from counts, List.length_map]
    exact inside
  have listed : k < (batch.map (·.minToks)).length := by rwa [List.length_map]
  have starts : input.startIdx k = start metadata.numDraftTokens k := SamplerInput.startIdx_eq cumul here
  have many : metadata.numDraftTokens.getD k 0 = batch[k].drafts.length := by
    rw [counts, List.getD_eq_getElem _ _ (by rwa [List.length_map]), List.getElem_map]
  have sizes : metadata.numDraftTokens = batch.map fun x =>
      (slice 0 x.drafts.length (slice x.lastPlace (x.drafts.length + 1) (x.logits model))).length := by
    rw [counts]
    refine List.map_congr_left fun x member => ?_
    have last := x.lastPlace_add (planned x member)
    rw [slice, slice, List.length_take, List.length_drop, List.length_take, List.length_drop, x.length_logits]
    omega
  have bonus : input.bonusTokenIds.getD k default =
      next (batch[k].target model) argmax (batch[k].tokens ++ batch[k].drafts) := by
    have row : (batch.map fun x => (slice x.lastPlace (x.drafts.length + 1) (x.logits model)).getD x.drafts.length
        default)[k]? = some (model (batch[k].tokens ++ batch[k].drafts)) := by
      rw [List.getElem?_map, List.getElem?_eq_getElem inside, Option.map_some, rows,
        List.getD_eq_getElem _ _ (by simp), List.getElem_map, List.getElem_range, List.take_length]
    rw [input_def, samplerInput, List.getD_eq_getElem?_getD, List.getElem?_map,
      MinTokensLogitsProcessor.getElem?_apply _ listed, bonus_eq, row, next, Scheduled.target_bonus prompted clear,
      List.getElem_map]
    rfl
  have greedy : SamplingMetadata.isGreedy ⟨batch.map fun _ => greedyTemperature, none⟩ k = true := by
    rw [SamplingMetadata.isGreedy, List.getD_eq_getElem _ _ (by rwa [List.length_map]), List.getElem_map]
    exact beq_self_eq_true _
  have judged : ∀ pos, (small : pos < batch[k].drafts.length) → input.greedyJudge none (input.startIdx k) pos =
      (next (batch[k].target model) argmax (batch[k].tokens ++ batch[k].drafts.take pos),
        batch[k].drafts[pos] != next (batch[k].target model) argmax (batch[k].tokens ++ batch[k].drafts.take pos)) := by
    intro pos small
    have drafted : input.draftTokenIds.getD (input.startIdx k + pos) default = batch[k].drafts[pos] := by
      rw [starts, counts, show input.draftTokenIds = _ from draft_eq]
      exact getD_flatMap (·.drafts) batch inside small default
    have row : (gather logits metadata.targetLogitsIndices)[start metadata.numDraftTokens k + pos]? =
        some (model (batch[k].tokens ++ batch[k].drafts.take pos)) := by
      rw [target_eq, sizes, getElem?_flatMap_start _ batch inside (by
        rw [rows]
        simpa [slice] using small)]
      simp only [rows, slice_map_range _ (show 0 + batch[k].drafts.length ≤ batch[k].drafts.length + 1 by omega),
        List.getElem_map, List.getElem_range, Nat.zero_add]
    have chosen : input.targetArgmax.getD (input.startIdx k + pos) default =
        next (batch[k].target model) argmax (batch[k].tokens ++ batch[k].drafts.take pos) := by
      rw [starts, input_def, samplerInput, List.getD_eq_getElem?_getD, List.getElem?_map,
        MinTokensLogitsProcessor.getElem?_applyWithSpecDecode _ listed (by rwa [many]), row, next,
        Scheduled.target_drafts prompted (Nat.le_of_lt small), List.getElem_map]
      rfl
    simp only [SamplerInput.greedyJudge, drafted, chosen]
  rw [SamplerInput.sampled, SamplerInput.judgeOf, greedy, if_pos rfl,
    show input.numDrafts k = batch[k].drafts.length by
      rw [SamplerInput.numDrafts_eq cumul here, ← many, List.getD_eq_getElem]
      rfl,
    outcome_verified _ _ judged bonus 0 _ (Nat.zero_add _), List.take_zero, List.append_nil, List.drop_zero]

/-- A step gives every request that is not discarded what is verified of its drafts. -/
theorem sampleTokens_eq (planned : ∀ x ∈ batch, x.Planned) (clear : ∀ x ∈ batch, x.Clear) :
    sampleTokens argmax (batch.flatMap (Scheduled.logits model)) batch =
      batch.map fun x => if x.discarded then [] else verified (x.target model) argmax x.tokens x.drafts := by
  rw [sampleTokens]
  split
  next no_drafts =>
    have places : (getCumsumAndArange (batch.map (·.numScheduledTokens))).1.map (· - 1) =
        bases (fun x => (x.logits model).length) (·.numScheduledTokens - 1) 0 batch := by
      rw [bases_congr (fun x _ => x.length_logits) (fun _ _ => rfl)]
      refine map_pred_cumulative _ _ batch 0 fun x member => ?_
      have room := (planned x member).room
      omega
    rw [places, gather_bases (Scheduled.logits model) (·.numScheduledTokens - 1) batch fun x member => by
      have room := (planned x member).room
      rw [x.length_logits]
      omega]
    apply List.ext_getElem
    · simp
    · intro k here there
      have inside : k < batch.length := by simpa using there
      have member : batch[k] ∈ batch := List.getElem_mem inside
      have undrafted : batch[k].drafts = [] := of_decide_eq_true (List.all_eq_true.mp no_drafts _ member)
      have room := (planned _ member).room
      rw [List.getElem_mapIdx, discarded_iff inside, List.getElem_map, List.getElem_map]
      cases kept : batch[k].discarded with
      | true => rfl
      | false =>
        have whole := batch[k].whole (planned _ member) kept
        have row : (batch.map fun x => (x.logits model).getD (x.numScheduledTokens - 1) default)[k]? =
            some (model (batch[k].tokens ++ batch[k].drafts)) := by
          rw [undrafted, List.length_nil] at whole
          rw [List.getElem?_map, List.getElem?_eq_getElem inside, Option.map_some,
            List.getD_eq_getElem _ _ (by rw [batch[k].length_logits]; omega)]
          simp only [Scheduled.logits, List.getElem_map, List.getElem_range, undrafted, List.append_nil]
          rw [List.take_of_length_le (by omega)]
        have processed := MinTokensLogitsProcessor.getElem?_apply (batch.map fun x =>
          (x.logits model).getD (x.numScheduledTokens - 1) default) (show k < (batch.map (·.minToks)).length by simpa)
        rw [row, List.getElem_map, Option.map_some,
          ← Scheduled.target_bonus (planned _ member).prompted (clear _ member)] at processed
        obtain ⟨_, here⟩ := List.getElem?_eq_some_iff.mp processed
        rw [if_neg Bool.false_ne_true, if_neg Bool.false_ne_true, here, undrafted, List.append_nil]
        rfl
  next some_drafts =>
    obtain ⟨draft_eq, target_eq, bonus_eq⟩ := metadata_spec planned (Scheduled.logits model) fun x _ => x.length_logits
    set metadata := calcSpecDecodeMetadata (batch.flatMap (·.inputIds)) (batch.map (·.drafts.length))
      (getCumsumAndArange (batch.map (·.numScheduledTokens))).1 with metadata_def
    set input := samplerInput argmax (batch.map (·.minToks)) metadata
      (gather (batch.flatMap (Scheduled.logits model)) metadata.logitsIndices) with input_def
    have counts : input.numDraftTokens = batch.map (·.drafts.length) := rfl
    have shaped : SamplerInput.Shaped input ⟨batch.map fun _ => greedyTemperature, none⟩ := by
      refine ⟨rfl, fun n member => ?_, ?_, by rw [counts, List.length_map, List.length_map]⟩
      swap
      · rw [counts, show input.draftTokenIds = _ from draft_eq, List.length_flatMap]
      exact List.le_max_of_le' 0 member le_rfl
    have parsed := SamplerInput.parseOutput_eq shaped vocabSize
      ((List.range batch.length).filter fun i => (batch[i]?.map (·.discarded)).getD false)
    rw [counts, List.length_map] at parsed
    refine parsed.trans (List.ext_getElem (by simp) fun k here there => ?_)
    have inside : k < batch.length := by simpa using there
    have member : batch[k] ∈ batch := List.getElem_mem inside
    rw [List.getElem_map, List.getElem_range, discarded_iff inside, List.getElem_map]
    cases kept : batch[k].discarded with
    | true => rfl
    | false =>
      rw [if_neg Bool.false_ne_true, if_neg Bool.false_ne_true, sampled_eq planned inside kept
        (clear _ member) rfl rfl draft_eq target_eq bonus_eq]
      exact List.filter_eq_self.mpr fun token member => mem_verified _ argmax member

end Batch

end DreamAifd.SpecDecode
