import DreamAifd.ScriptedForward

/-! The patched forward of a pipeline stage. Every stage reports ids to the collector as the
unpatched forward does, its own input under id 0 included, and hands what was collected on to
the next stage. -/
namespace DreamAifd.PipelineStages

open Trace Segments

variable {α ρ : Type*}

/-- A decoder as its layers: each maps hidden states and residual stream to their successors,
over the same number of tokens. -/
structure Decoder (α ρ : Type*) where
  numTokens : Nat
  embedding : List ρ
  layer : Nat → List ρ × Option (List ρ) → List ρ × List ρ
  attn : Nat → List ρ × Option (List ρ) → AttnCall α
  embedded : embedding.length = numTokens
  hiddenRows : ∀ idx input, input.1.length = numTokens → (layer idx input).1.length = numTokens
  residualRows : ∀ idx input, input.1.length = numTokens → (layer idx input).2.length = numTokens
  tokens : ∀ idx input n, input.1.length = numTokens → (attn idx input).count = some n → n = numTokens

namespace Decoder

def run (d : Decoder α ρ) (idx : Nat) : Nat → List ρ × Option (List ρ) → List ρ × Option (List ρ)
  | 0, input => input
  | count + 1, input =>
    let next := d.layer idx input
    d.run (idx + 1) count (next.1, some next.2)

def out (d : Decoder α ρ) (layerIdx : Nat) : List ρ × Option (List ρ) :=
  d.run 0 layerIdx (d.embedding, none)

theorem run_add (d : Decoder α ρ) (idx first second : Nat) (input : List ρ × Option (List ρ)) :
    d.run idx (first + second) input = d.run (idx + first) second (d.run idx first input) := by
  induction first generalizing idx input with
  | zero => rw [Nat.zero_add]; rfl
  | succ first ih =>
    rw [Nat.succ_add, run, ih, Nat.add_assoc, Nat.add_comm 1]
    rfl

theorem run_out (d : Decoder α ρ) (idx count : Nat) : d.run idx count (d.out idx) = d.out (idx + count) := by
  rw [out, out, run_add, Nat.zero_add]

theorem out_succ (d : Decoder α ρ) (idx : Nat) :
    d.out (idx + 1) = ((d.layer idx (d.out idx)).1, some (d.layer idx (d.out idx)).2) := by
  rw [← run_out]
  rfl

theorem length_out (d : Decoder α ρ) (layerIdx : Nat) : (d.out layerIdx).1.length = d.numTokens := by
  induction layerIdx with
  | zero => exact d.embedded
  | succ idx ih => rw [out_succ]; exact d.hiddenRows idx _ ih

def forward (d : Decoder α ρ) : Forward α ρ where
  numTokens := d.numTokens
  attn idx := d.attn idx (d.out idx)
  layerOut := d.out
  tokens idx n := d.tokens idx _ n (d.length_out idx)
  hiddenRows := d.length_out
  residualRows layerIdx r held := by
    cases layerIdx with
    | zero => cases held
    | succ idx =>
      rw [out_succ] at held
      cases held
      exact d.residualRows idx _ (d.length_out idx)

end Decoder

/-- What one stage sends to the next; the collected outputs go under `aux_layer_0`,
`aux_layer_1` and so on. -/
structure IntermediateTensors (ρ : Type*) where
  hiddenStates : List ρ
  residual : Option (List ρ)
  auxLayers : Dict Nat (List ρ)

def packAux (auxList : List (List ρ)) : Dict Nat (List ρ) :=
  auxList.zipIdx.foldl (fun d entry => d.set entry.2 entry.1) .empty

/-- Entries in ascending order of the number in their key. -/
def extractAuxFromIntermediate : Option (IntermediateTensors ρ) → List (List ρ)
  | none => []
  | some inter => (inter.auxLayers.keys.sort (· ≤ ·)).filterMap inter.auxLayers.get?

theorem packAux_concat (auxList : List (List ρ)) (last : List ρ) :
    packAux (auxList ++ [last]) = (packAux auxList).set auxList.length last := by
  simp [packAux, List.zipIdx_append]

theorem packAux_get? (auxList : List (List ρ)) (i : Nat) : (packAux auxList).get? i = auxList[i]? := by
  induction auxList using List.reverseRecOn with
  | nil => exact Dict.get?_empty i
  | append_singleton auxList last ih =>
    rw [packAux_concat, Dict.get?_set, ih, List.getElem?_append]
    split
    next here => subst here; simp
    next other =>
      split
      · rfl
      next beyond =>
        rw [List.getElem?_eq_none (by omega), List.getElem?_eq_none (by simp; omega)]

theorem packAux_keys (auxList : List (List ρ)) :
    (packAux auxList).keys = Finset.range auxList.length := by
  ext i
  rw [Dict.mem_keys, packAux_get?, Finset.mem_range]
  constructor
  · rintro ⟨value, held⟩
    exact (List.getElem?_eq_some_iff.mp held).1
  · exact fun bound => ⟨auxList[i], List.getElem?_eq_getElem bound⟩

@[simp] theorem packAux_size (auxList : List (List ρ)) : (packAux auxList).size = auxList.length := by
  rw [Dict.size, packAux_keys, Finset.card_range]

/-- What is packed arrives in order. -/
theorem extract_packAux (hiddenStates : List ρ) (residual : Option (List ρ)) (auxList : List (List ρ)) :
    extractAuxFromIntermediate (some ⟨hiddenStates, residual, packAux auxList⟩) = auxList := by
  rw [extractAuxFromIntermediate, packAux_keys, Finset.sort_range, funext (packAux_get? auxList)]
  induction auxList using List.reverseRecOn with
  | nil => rfl
  | append_singleton auxList last ih =>
    have before : (List.range auxList.length).filterMap (fun i => (auxList ++ [last])[i]?) =
        (List.range auxList.length).filterMap fun i => auxList[i]? :=
      List.filterMap_congr fun i member => List.getElem?_append_left (List.mem_range.mp member)
    rw [List.length_append, List.length_singleton, List.range_succ, List.filterMap_append, before, ih]
    simp

def makeEmptyIntermediateTensors [Zero ρ] (auxHiddenStateLayers : List Int)
    (startLayer batchSize : Nat) : IntermediateTensors ρ where
  hiddenStates := List.replicate batchSize 0
  residual := some (List.replicate batchSize 0)
  auxLayers := packAux (List.replicate (auxHiddenStateLayers.countP (· < (startLayer : Int)))
    (List.replicate batchSize 0))

def stageCalls (attnHooks : List Int) (d : Decoder α ρ) (idx : Nat) :
    Nat → List ρ × Option (List ρ) → List (ModelCall α ρ)
  | 0, _ => []
  | count + 1, input =>
    let next := d.layer idx input
    (hooksOn attnHooks idx).map (.attention · (d.attn idx input)) ++
      .layer (idx + 1 : Nat) next.1 (some next.2) ::
      stageCalls attnHooks d (idx + 1) count (next.1, some next.2)

theorem stageCalls_out (attnHooks : List Int) (d : Decoder α ρ) (idx count : Nat) :
    stageCalls attnHooks d idx count (d.out idx) =
      (List.range' idx count).flatMap (layerCalls attnHooks d.forward) := by
  induction count generalizing idx with
  | zero => rfl
  | succ count ih =>
    have next := ih (idx + 1)
    rw [Decoder.out_succ] at next
    rw [stageCalls, next, List.range'_succ, List.flatMap_cons, layerCalls, List.append_assoc]
    simp only [Decoder.forward, Decoder.out_succ]
    rfl

/-- The first stage embeds its tokens, the others take over what they were sent. -/
def stageInput (d : Decoder α ρ) : Option (IntermediateTensors ρ) → List ρ × Option (List ρ)
  | none => (d.embedding, none)
  | some inter => (inter.hiddenStates, inter.residual)

/-- Layers as the process of one stage holds them, the others being placeholders. -/
def stageModel (numLayers startLayer count : Nat) : Model
  | .modelLayers => some <| (List.range numLayers).map fun idx =>
      if startLayer ≤ idx ∧ idx < startLayer + count then .attention else .ppMissing
  | _ => none

def loadStages (α ρ : Type*) (numLayers : Nat) (hfConfig : HfConfig) :
    Nat → List Nat → Except AifdError (List (Engine α ρ × Nat))
  | _, [] => .ok []
  | startLayer, count :: parts =>
    match maybeEnableAifd (stageModel numLayers startLayer count) hfConfig
        (.unhooked hfConfig.eagleAuxHiddenStateLayerIds) with
    | .raised err _ => .error err
    | .done e =>
      match loadStages α ρ numLayers hfConfig (startLayer + count) parts with
      | .error err => .error err
      | .ok engines => .ok ((e, count) :: engines)

/-! Loading. A candidate lives on one stage; on every other one its layer is a placeholder
without attention, and registration raises. -/

theorem registerHooks_held {layers : List DecoderLayer} {remaining : List Int} {e final : Engine α ρ}
    (returned : registerHooks layers remaining e = .done final)
    (inside : ∀ auxId ∈ remaining, InRange layers.length auxId) :
    ∀ auxId ∈ remaining, layers[(auxId - 1).toNat]? = some .attention := by
  induction remaining generalizing e with
  | nil => simp
  | cons auxId rest ih =>
    obtain ⟨low, high⟩ := inside auxId (by simp)
    rw [registerHooks, if_neg (by rw [not_not]; constructor <;> omega)] at returned
    split at returned
    next held =>
      rw [List.forall_mem_cons]
      exact ⟨held, ih returned fun other member => inside other (List.mem_cons_of_mem _ member)⟩
    · contradiction

theorem findLayers_stageModel {numLayers : Nat} (positive : 0 < numLayers) (startLayer count : Nat) :
    findLayers (stageModel numLayers startLayer count) = some ((List.range numLayers).map fun idx =>
      if startLayer ≤ idx ∧ idx < startLayer + count then .attention else .ppMissing) := by
  have filled : (List.range numLayers).map (fun idx =>
      if startLayer ≤ idx ∧ idx < startLayer + count then DecoderLayer.attention else .ppMissing) ≠
        [] := by
    simp [positive.ne']
  simp only [findLayers, stageModel, List.findSome?_cons]
  rw [Option.filter_some, if_pos (by simpa using filled)]

theorem maybeEnableAifd_stage {numLayers startLayer count : Nat} {hfConfig : HfConfig}
    {cfg : AifdConfig} {c : Int} {e final : Engine α ρ}
    (configured : aifdConfigFrom hfConfig = some cfg)
    (inside : ∀ c ∈ cfg.candidates, InRange numLayers c) (member : c ∈ cfg.candidates)
    (returned : maybeEnableAifd (stageModel numLayers startLayer count) hfConfig e = .done final) :
    (startLayer : Int) < c ∧ c ≤ ((startLayer + count : Nat) : Int) := by
  obtain ⟨_, nonempty⟩ := aifdConfigFrom_eq_some.mp configured
  obtain ⟨low, high⟩ := inside c member
  have held : c - 1 = ((c - 1).toNat : Int) := (Int.toNat_of_nonneg (by omega)).symm
  rw [maybeEnableAifd, configured] at returned
  simp only [enableAifd, if_neg nonempty, findLayers_stageModel (show 0 < numLayers by omega)]
    at returned
  have entry := registerHooks_held returned (fun auxId listed => by
    rw [List.length_map, List.length_range]
    exact inside auxId listed) c member
  rw [List.getElem?_map, List.getElem?_range (by omega), Option.map_some, Option.some.injEq] at entry
  split at entry
  next window => omega
  · contradiction

/-- With candidates, at most one stage loads. -/
theorem loadStages_candidates {numLayers : Nat} {hfConfig : HfConfig} {cfg : AifdConfig}
    (configured : aifdConfigFrom hfConfig = some cfg)
    (inside : ∀ c ∈ cfg.candidates, InRange numLayers c) {startLayer : Nat} {parts : List Nat}
    {stages : List (Engine α ρ × Nat)}
    (loaded : loadStages α ρ numLayers hfConfig startLayer parts = .ok stages) :
    parts.length ≤ 1 := by
  obtain ⟨_, nonempty⟩ := aifdConfigFrom_eq_some.mp configured
  obtain ⟨c, listed⟩ := List.exists_mem_of_ne_nil _ nonempty
  have member : c ∈ cfg.candidates := (List.mem_insertionSort (· ≤ ·)).mpr listed
  match parts, loaded with
  | [], _ => simp
  | [_], _ => simp
  | first :: second :: rest, loaded =>
    exfalso
    rw [loadStages] at loaded
    split at loaded
    · contradiction
    next e returned =>
      have here := maybeEnableAifd_stage configured inside member returned
      rw [loadStages] at loaded
      cases other : maybeEnableAifd (stageModel numLayers (startLayer + first) second) hfConfig
          (.unhooked hfConfig.eagleAuxHiddenStateLayerIds : Engine α ρ) with
      | raised err e' => simp [other] at loaded
      | done e' =>
        have there := maybeEnableAifd_stage configured inside member other
        omega

theorem loadStages_unconfigured {numLayers : Nat} {hfConfig : HfConfig}
    (configured : aifdConfigFrom hfConfig = none) (startLayer : Nat) (parts : List Nat) :
    loadStages α ρ numLayers hfConfig startLayer parts =
      .ok (parts.map fun count => (.unhooked hfConfig.eagleAuxHiddenStateLayerIds, count)) := by
  induction parts generalizing startLayer with
  | nil => rfl
  | cons count parts ih => simp [loadStages, maybeEnableAifd, configured, ih]

/-- One stage holding every layer is the whole model. -/
theorem stageModel_whole (numLayers : Nat) :
    stageModel numLayers 0 numLayers = (plainModel numLayers).paths := by
  funext path
  cases path with
  | modelLayers =>
    refine congrArg some (List.eq_replicate_iff.mpr ⟨by simp, ?_⟩)
    simp only [List.forall_mem_map, List.mem_range]
    exact fun idx bound => if_pos ⟨Nat.zero_le _, by omega⟩
  | layers | languageModelModelLayers | languageModelLayers => rfl

section Outputs

variable [Add ρ]

def layerOutputs (aux : List Int) (f : Forward α ρ) (startLayer count : Nat) : List (List ρ) :=
  ((List.range' (startLayer + 1) count).filter fun l : Nat => (l : Int) ∈ aux).map f.value

def stageOutputs (aux : List Int) (f : Forward α ρ) (startLayer count : Nat) : List (List ρ) :=
  (if 0 ∈ aux then [f.value startLayer] else []) ++ layerOutputs aux f startLayer count

theorem layerOutputs_add (aux : List Int) (f : Forward α ρ) (startLayer first second : Nat) :
    layerOutputs aux f startLayer (first + second) =
      layerOutputs aux f startLayer first ++ layerOutputs aux f (startLayer + first) second := by
  rw [layerOutputs, layerOutputs, layerOutputs, ← List.map_append, ← List.filter_append,
    Nat.add_right_comm startLayer first 1, List.range'_append_1]

theorem length_layerOutputs (aux : List Int) (f : Forward α ρ) (startLayer count : Nat) :
    (layerOutputs aux f startLayer count).length =
      (List.range' (startLayer + 1) count).countP fun l : Nat => (l : Int) ∈ aux := by
  rw [layerOutputs, List.length_map, List.countP_eq_length_filter]

theorem auxOutputs_eq (aux : List Int) (f : Forward α ρ) (numLayers : Nat) :
    f.auxOutputs aux numLayers = stageOutputs aux f 0 numLayers := by
  rw [Forward.auxOutputs, List.range_eq_range', List.range'_succ, List.filter_cons, stageOutputs,
    layerOutputs]
  by_cases zero : (0 : Int) ∈ aux <;> simp [zero]

theorem length_stageOutputs (aux : List Int) (f : Forward α ρ) (startLayer : Nat) (parts : List Nat) :
    (forSegments (stageOutputs aux f) startLayer parts).length =
      (if 0 ∈ aux then parts.length else 0) +
        (List.range' (startLayer + 1) parts.sum).countP fun l : Nat => (l : Int) ∈ aux := by
  induction parts generalizing startLayer with
  | nil => simp [forSegments]
  | cons count parts ih =>
    have split := congrArg List.length (layerOutputs_add aux f startLayer count parts.sum)
    rw [List.length_append, length_layerOutputs, length_layerOutputs, length_layerOutputs] at split
    rw [forSegments, List.length_append, ih, List.sum_cons, split, stageOutputs, List.length_append,
      length_layerOutputs]
    by_cases zero : (0 : Int) ∈ aux
    · simp only [zero, if_true, List.length_cons, List.length_nil]
      omega
    · simp only [zero, if_false, List.length_nil, List.length_cons]
      omega

theorem stageOutputs_join (aux : List Int) (f : Forward α ρ) (zero : (0 : Int) ∉ aux)
    (startLayer : Nat) (parts : List Nat) :
    forSegments (stageOutputs aux f) startLayer parts = layerOutputs aux f startLayer parts.sum := by
  induction parts generalizing startLayer with
  | nil => simp [forSegments, layerOutputs]
  | cons count parts ih =>
    rw [forSegments, ih, List.sum_cons, layerOutputs_add, stageOutputs, if_neg zero, List.nil_append]

end Outputs

section Stage

variable [Field α] [LinearOrder α] [Add ρ]

/-- `pp_eagle3_forward` on the layers `[startLayer, startLayer + count)`. -/
def stageForward (e : Engine α ρ) (d : Decoder α ρ) (startLayer count : Nat)
    (inter : Option (IntermediateTensors ρ)) : Outcome AifdError (Pass α ρ) :=
  let input := stageInput d inter
  execute (callStep e)
    (.layer 0 input.1 input.2 :: stageCalls e.attnHooks d startLayer count input)
    ⟨e.state, extractAuxFromIntermediate inter⟩

structure PipelineRun (ρ : Type*) where
  transfers : List (IntermediateTensors ρ)
  auxList : List (List ρ)

/-- The stages from `startLayer` on, each with the number of its layers. -/
def runStages (d : Decoder α ρ) :
    List (Engine α ρ × Nat) → Nat → Option (IntermediateTensors ρ) → Except AifdError (PipelineRun ρ)
  | [], _, inter => .ok ⟨[], extractAuxFromIntermediate inter⟩
  | (e, count) :: stages, startLayer, inter =>
    match stageForward e d startLayer count inter with
    | .raised err _ => .error err
    | .done p =>
      if stages.isEmpty then .ok ⟨[], p.auxList⟩
      else
        let output := d.run startLayer count (stageInput d inter)
        let sent := ⟨output.1, output.2, packAux p.auxList⟩
        match runStages d stages (startLayer + count) (some sent) with
        | .error err => .error err
        | .ok run => .ok { run with transfers := sent :: run.transfers }

/-- Load a pipeline whose stages hold the given numbers of layers, and run one forward. -/
def runPipeline (numLayers : Nat) (hfConfig : HfConfig) (parts : List Nat) (d : Decoder α ρ) :
    Except AifdError (PipelineRun ρ) :=
  match loadStages α ρ numLayers hfConfig 0 parts with
  | .error err => .error err
  | .ok stages => runStages d stages 0 none

/-- The pipeline returns what a single process returns, and every stage allocates as many
placeholders as it is sent tensors. -/
def Transparent [Zero ρ] (numLayers : Nat) (hfConfig : HfConfig) (parts : List Nat) (α : Type*)
    [Field α] [LinearOrder α] : Prop :=
  ∀ d : Decoder α ρ,
    (∀ e auxList, load α ρ (plainModel numLayers) hfConfig = .done e →
      auxOutcome (runForward e numLayers d.forward) = .ok auxList →
      ∃ run, runPipeline numLayers hfConfig parts d = .ok run ∧ run.auxList = auxList) ∧
    ∀ run, runPipeline numLayers hfConfig parts d = .ok run →
      ∀ r inter, run.transfers[r]? = some inter →
        (makeEmptyIntermediateTensors (ρ := ρ) hfConfig.eagleAuxHiddenStateLayerIds
          (start parts (r + 1)) d.numTokens).auxLayers.size = inter.auxLayers.size

/-- On one stage the patched forward is the forward. -/
theorem stageForward_whole (e : Engine α ρ) (d : Decoder α ρ) (numLayers : Nat) :
    stageForward e d 0 numLayers none = runForward e numLayers d.forward := by
  have calls := stageCalls_out e.attnHooks d 0 numLayers
  rw [← List.range_eq_range'] at calls
  rw [stageForward, runForward, forwardCalls, ← calls]
  rfl

/-! Without candidates every stage collects its own outputs, and its input as id 0. -/

theorem callStep_unhooked (s : AifdState α ρ) (aux : List Int) (layerIdx : Int) (hiddenStates : List ρ)
    (residual : Option (List ρ)) (auxList : List (List ρ)) :
    callStep ⟨s, [], false, aux⟩ ⟨s, auxList⟩ (.layer layerIdx hiddenStates residual) =
      .done ⟨s, auxList ++ if layerIdx ∈ aux then [layerValue hiddenStates residual] else []⟩ := by
  by_cases member : layerIdx ∈ aux <;> simp [callStep, maybeAddHiddenState, member]

theorem execute_unhooked (s : AifdState α ρ) (aux : List Int) (f : Forward α ρ)
    (startLayer count : Nat) (auxList : List (List ρ)) :
    execute (callStep ⟨s, [], false, aux⟩)
        ((List.range' startLayer count).flatMap (layerCalls [] f)) ⟨s, auxList⟩ =
      .done ⟨s, auxList ++ layerOutputs aux f startLayer count⟩ := by
  induction count generalizing startLayer auxList with
  | zero => simp [execute, layerOutputs]
  | succ count ih =>
    have first : layerOutputs aux f startLayer 1 =
        if ((startLayer + 1 : Nat) : Int) ∈ aux then [f.value (startLayer + 1)] else [] := by
      rw [layerOutputs, List.range'_one, List.filter_cons, List.filter_nil]
      by_cases member : ((startLayer + 1 : Nat) : Int) ∈ aux
      · rw [if_pos (decide_eq_true member), if_pos member, List.map_singleton]
      · rw [if_neg (by simpa using member), if_neg member, List.map_nil]
    rw [List.range'_succ, List.flatMap_cons, Nat.add_comm count, layerOutputs_add, execute_append,
      ← List.append_assoc, ← ih, first]
    simp only [layerCalls, hooksOn, List.filter_nil, List.map_nil, List.nil_append, execute,
      callStep_unhooked, Outcome.andThen_done]
    rfl

theorem stageForward_unhooked (aux : List Int) (d : Decoder α ρ) (startLayer count : Nat)
    {inter : Option (IntermediateTensors ρ)} (input : stageInput d inter = d.out startLayer) :
    stageForward (.unhooked aux : Engine α ρ) d startLayer count inter =
      .done ⟨{}, extractAuxFromIntermediate inter ++
        stageOutputs aux d.forward startLayer count⟩ := by
  have calls := stageCalls_out [] d startLayer count
  simp only [stageForward, input, Engine.unhooked, calls, execute, callStep_unhooked,
    Outcome.andThen_done, execute_unhooked, List.append_assoc]
  rfl

/-- Each transfer carries what all stages before it collected. -/
theorem runStages_unhooked (aux : List Int) (d : Decoder α ρ) (parts : List Nat) (filled : parts ≠ [])
    (startLayer : Nat) (inter : Option (IntermediateTensors ρ))
    (input : stageInput d inter = d.out startLayer) :
    ∃ run, runStages d (parts.map fun count => (.unhooked aux, count)) startLayer inter = .ok run ∧
      run.auxList = extractAuxFromIntermediate inter ++
        forSegments (stageOutputs aux d.forward) startLayer parts ∧
      run.transfers.map (·.auxLayers.size) = (List.range (parts.length - 1)).map fun r =>
        (extractAuxFromIntermediate inter).length +
          (forSegments (stageOutputs aux d.forward) startLayer (parts.take (r + 1))).length := by
  induction parts generalizing startLayer inter with
  | nil => exact absurd rfl filled
  | cons count parts ih =>
    have stage := stageForward_unhooked aux d startLayer count input
    rw [List.map_cons, runStages, stage]
    dsimp only
    cases parts with
    | nil => exact ⟨_, rfl, by simp [forSegments], rfl⟩
    | cons next parts =>
      have output : d.run startLayer count (stageInput d inter) = d.out (startLayer + count) := by
        rw [input, Decoder.run_out]
      set collected := extractAuxFromIntermediate inter ++ stageOutputs aux d.forward startLayer count
      obtain ⟨run, ran, returned, sizes⟩ := ih (by simp) (startLayer + count)
        (some ⟨(d.out (startLayer + count)).1, (d.out (startLayer + count)).2,
          packAux collected⟩) rfl
      rw [extract_packAux] at returned sizes
      rw [output, ran]
      refine ⟨_, if_neg (by simp), ?_, ?_⟩
      · simp [returned, forSegments, collected]
      · simp only [List.map_cons, sizes, packAux_size, List.length_cons, Nat.add_sub_cancel,
          List.range_succ_eq_map, List.take_succ_cons, forSegments, List.map_map, collected,
          List.length_append]
        simp [forSegments, Nat.add_assoc, Function.comp_def]

theorem runPipeline_unconfigured (numLayers : Nat) {hfConfig : HfConfig}
    (configured : aifdConfigFrom hfConfig = none) {parts : List Nat} (filled : parts ≠ [])
    (d : Decoder α ρ) :
    ∃ run, runPipeline numLayers hfConfig parts d = .ok run ∧
      run.auxList =
        forSegments (stageOutputs hfConfig.eagleAuxHiddenStateLayerIds d.forward) 0 parts ∧
      run.transfers.map (·.auxLayers.size) = (List.range (parts.length - 1)).map fun r =>
        (if 0 ∈ hfConfig.eagleAuxHiddenStateLayerIds then (parts.take (r + 1)).length else 0) +
          (List.range' 1 (start parts (r + 1))).countP
            fun l : Nat => (l : Int) ∈ hfConfig.eagleAuxHiddenStateLayerIds := by
  obtain ⟨run, ran, returned, sizes⟩ := runStages_unhooked hfConfig.eagleAuxHiddenStateLayerIds d
    parts filled 0 none rfl
  refine ⟨run, ?_, by simpa [extractAuxFromIntermediate] using returned, ?_⟩
  · rw [runPipeline, loadStages_unconfigured configured]
    exact ran
  · rw [sizes]
    apply List.map_congr_left
    intro r _
    rw [length_stageOutputs, Nat.zero_add]
    simp [extractAuxFromIntermediate, start]

theorem runForward_unconfigured {numLayers : Nat} {hfConfig : HfConfig}
    (configured : aifdConfigFrom hfConfig = none) (d : Decoder α ρ) {e : Engine α ρ}
    (loaded : load α ρ (plainModel numLayers) hfConfig = .done e) :
    auxOutcome (runForward e numLayers d.forward) =
      .ok (stageOutputs hfConfig.eagleAuxHiddenStateLayerIds d.forward 0 numLayers) := by
  rw [load, maybeEnableAifd, configured] at loaded
  cases loaded
  rw [runForward_disabled rfl, auxOutcome, auxOutputs_eq]
  rfl

end Stage

/-- A decoder of no tokens whose attention hooks return at once. -/
def silentDecoder (α ρ : Type*) [Field α] : Decoder α ρ where
  numTokens := 0
  embedding := []
  layer _ _ := ([], [])
  attn _ _ := skippedCall α
  embedded := rfl
  hiddenRows _ _ _ := rfl
  residualRows _ _ _ := rfl
  tokens _ _ n _ counted := by simp [AttnCall.count, skippedCall] at counted

theorem load_plainModel {numLayers : Nat} {hfConfig : HfConfig} {cfg : AifdConfig}
    (configured : aifdConfigFrom hfConfig = some cfg)
    (inside : ∀ c ∈ cfg.candidates, InRange numLayers c) :
    ∃ e, load α ρ (plainModel numLayers) hfConfig = .done e := by
  obtain ⟨_, nonempty⟩ := aifdConfigFrom_eq_some.mp configured
  obtain ⟨c, listed⟩ := List.exists_mem_of_ne_nil _ nonempty
  obtain ⟨low, high⟩ := inside c ((List.mem_insertionSort (· ≤ ·)).mpr listed)
  have found : findLayers (plainModel numLayers).paths =
      some (List.replicate numLayers .attention) := by
    have filled : numLayers ≠ 0 := by omega
    simp [findLayers, plainModel, filled]
  simp only [load, maybeEnableAifd, configured, enableAifd, if_neg nonempty, found]
  exact ⟨_, registerHooks_attention _ (fun layer member => List.eq_of_mem_replicate member)
    (by rw [List.length_replicate]; exact inside)⟩

section Transparency

variable [Field α] [LinearOrder α] [Add ρ] [Zero ρ]

/-- Without measurements a single process returns its fallback channel; a pipeline of several
stages does not load. -/
theorem transparent_unconfigured {numLayers : Nat} {hfConfig : HfConfig} {parts : List Nat}
    (inside : ∀ cfg, aifdConfigFrom hfConfig = some cfg →
      ∀ c ∈ cfg.candidates, 1 ≤ c ∧ c < numLayers)
    (transparent : Transparent (ρ := ρ) numLayers hfConfig parts α) (several : 2 ≤ parts.length) :
    aifdConfigFrom hfConfig = none := by
  by_contra enabled
  obtain ⟨cfg, configured⟩ := Option.ne_none_iff_exists'.mp enabled
  have inRange (c : Int) (member : c ∈ cfg.candidates) : InRange numLayers c := by
    obtain ⟨low, high⟩ := inside cfg configured c member
    exact ⟨low, high.le⟩
  obtain ⟨e, loaded⟩ := load_plainModel (α := α) (ρ := ρ) configured inRange
  rcases load_cases configured loaded with
    ⟨_, ready, ⟨_, live, candidates, _⟩ | ⟨refused, _⟩⟩
  · have silent (c : Int) : (silentDecoder α ρ).forward.measured c = none := measure_skipped
    have returned := runForward_emits (N := numLayers) live ready (silentDecoder α ρ).forward
      (fun member => lt_irrefl _ (inside cfg configured _ (candidates ▸ member)).2)
      (fun m found => by
        obtain ⟨k, _, _, _, here⟩ := Forward.firstMeasured_split found
        rw [silent] at here
        contradiction)
      (.inl fun c _ => silent c)
    obtain ⟨run, ran, _⟩ := (transparent (silentDecoder α ρ)).1 e _ loaded (by rw [returned]; rfl)
    unfold runPipeline at ran
    split at ran
    · contradiction
    next stages assembled =>
      have := loadStages_candidates configured inRange assembled
      omega
  · refine refused ⟨?_, inRange⟩
    obtain ⟨_, nonempty⟩ := aifdConfigFrom_eq_some.mp configured
    obtain ⟨c, listed⟩ := List.exists_mem_of_ne_nil _ nonempty
    obtain ⟨low, high⟩ := inRange c ((List.mem_insertionSort (· ≤ ·)).mpr listed)
    have filled : numLayers ≠ 0 := by omega
    simp [findLayers, plainModel, filled]

section Unconfigured

variable {numLayers : Nat} {hfConfig : HfConfig} {parts : List Nat}

/-- Every further stage would return its input once more as id 0. -/
theorem zero_of_transparent (configured : aifdConfigFrom hfConfig = none) (filled : parts ≠ [])
    (several : parts.length ≠ 1) (total : parts.sum = numLayers)
    (transparent : Transparent (ρ := ρ) numLayers hfConfig parts α) :
    (0 : Int) ∉ hfConfig.eagleAuxHiddenStateLayerIds := by
  intro member
  have count := List.length_pos_iff.mpr filled
  obtain ⟨run, ran, returned, -⟩ := runPipeline_unconfigured numLayers configured filled (silentDecoder α ρ)
  have loaded : load α ρ (plainModel numLayers) hfConfig = .done (.unhooked
      hfConfig.eagleAuxHiddenStateLayerIds) := by
    rw [load, maybeEnableAifd, configured]
  obtain ⟨run', ran', equal⟩ := (transparent (silentDecoder α ρ)).1 _ _ loaded
    (runForward_unconfigured configured (silentDecoder α ρ) loaded)
  rw [ran] at ran'
  cases ran'
  have lengths := congrArg List.length equal
  rw [returned, length_stageOutputs, stageOutputs, List.length_append, length_layerOutputs, total] at lengths
  simp only [member, if_true, List.length_singleton] at lengths
  omega

/-- The placeholders of a stage are as many as the ids in front of it. -/
theorem balanced_of_transparent (configured : aifdConfigFrom hfConfig = none) (filled : parts ≠ [])
    (zero : (0 : Int) ∉ hfConfig.eagleAuxHiddenStateLayerIds)
    (transparent : Transparent (ρ := ρ) numLayers hfConfig parts α) {r : Nat} (low : 0 < r)
    (high : r < parts.length) :
    hfConfig.eagleAuxHiddenStateLayerIds.countP (· < (start parts r : Int)) =
      (List.range' 1 (start parts r)).countP
        fun l : Nat => (l : Int) ∈ hfConfig.eagleAuxHiddenStateLayerIds := by
  obtain ⟨run, ran, -, sizes⟩ := runPipeline_unconfigured numLayers configured filled (silentDecoder α ρ)
  obtain ⟨r, rfl⟩ := Nat.exists_eq_add_of_le' low
  have entry := congrArg (·[r]?) sizes
  simp only [List.getElem?_map, List.getElem?_range (show r < parts.length - 1 by omega),
    Option.map_some, zero, if_false, Nat.zero_add] at entry
  obtain ⟨inter, sent, size⟩ := Option.map_eq_some_iff.mp entry
  have expected := (transparent (silentDecoder α ρ)).2 run ran r inter sent
  rw [makeEmptyIntermediateTensors, packAux_size, List.length_replicate, size] at expected
  exact expected

/-- One stage loads and runs as the single process does. -/
theorem transparent_single (numLayers : Nat) (hfConfig : HfConfig) :
    Transparent (ρ := ρ) numLayers hfConfig [numLayers] α := by
  intro d
  have assembled : loadStages α ρ numLayers hfConfig 0 [numLayers] =
      match load α ρ (plainModel numLayers) hfConfig with
      | .raised err _ => .error err
      | .done e => .ok [(e, numLayers)] := by
    rw [loadStages, stageModel_whole]
    rfl
  refine ⟨fun e auxList loaded returned => ?_, fun run ran r inter sent => ?_⟩
  · rw [loaded] at assembled
    rw [runPipeline, assembled]
    simp only [runStages, stageForward_whole]
    cases outcome : runForward e numLayers d.forward with
    | raised err p => simp [outcome, auxOutcome] at returned
    | done p =>
      rw [outcome] at returned
      exact ⟨_, rfl, Except.ok.inj returned⟩
  · rw [runPipeline, assembled] at ran
    cases loaded : load α ρ (plainModel numLayers) hfConfig with
    | raised err e => simp [loaded] at ran
    | done e =>
      simp only [loaded, runStages] at ran
      split at ran
      · contradiction
      · cases ran
        simp at sent

theorem transparent_of_balanced (configured : aifdConfigFrom hfConfig = none) (filled : parts ≠ [])
    (total : parts.sum = numLayers) (zero : (0 : Int) ∉ hfConfig.eagleAuxHiddenStateLayerIds)
    (balanced : ∀ r, 0 < r → r < parts.length →
      hfConfig.eagleAuxHiddenStateLayerIds.countP (· < (start parts r : Int)) =
        (List.range' 1 (start parts r)).countP
          fun l : Nat => (l : Int) ∈ hfConfig.eagleAuxHiddenStateLayerIds) :
    Transparent (ρ := ρ) numLayers hfConfig parts α := by
  intro d
  obtain ⟨run, ran, returned, sizes⟩ := runPipeline_unconfigured numLayers configured filled d
  refine ⟨fun e auxList loaded result => ⟨run, ran, ?_⟩, fun run' ran' r inter sent => ?_⟩
  · rw [runForward_unconfigured configured d loaded] at result
    cases result
    rw [returned, stageOutputs_join _ _ zero, stageOutputs, if_neg zero, List.nil_append, total]
  · rw [ran] at ran'
    cases ran'
    have entry := congrArg (·[r]?) sizes
    simp only [List.getElem?_map, sent, Option.map_some] at entry
    obtain ⟨r', held, size⟩ := Option.map_eq_some_iff.mp entry.symm
    obtain ⟨bound, rfl⟩ := List.getElem?_eq_some_iff.mp held
    rw [List.length_range] at bound
    rw [List.getElem_range, if_neg zero, Nat.zero_add] at size
    rw [makeEmptyIntermediateTensors, packAux_size, List.length_replicate, ← size]
    exact balanced (r + 1) (by omega) (by omega)

end Unconfigured

theorem transparent_iff {numLayers : Nat} {hfConfig : HfConfig} {parts : List Nat}
    (filled : parts ≠ []) (total : parts.sum = numLayers)
    (inside : ∀ cfg, aifdConfigFrom hfConfig = some cfg →
      ∀ c ∈ cfg.candidates, 1 ≤ c ∧ c < numLayers) :
    Transparent (ρ := ρ) numLayers hfConfig parts α ↔
      parts.length = 1 ∨
        aifdConfigFrom hfConfig = none ∧ (0 : Int) ∉ hfConfig.eagleAuxHiddenStateLayerIds ∧
          ∀ r, 0 < r → r < parts.length →
            hfConfig.eagleAuxHiddenStateLayerIds.countP (· < (start parts r : Int)) =
              (List.range' 1 (start parts r)).countP
                fun l : Nat => (l : Int) ∈ hfConfig.eagleAuxHiddenStateLayerIds := by
  have count := List.length_pos_iff.mpr filled
  constructor
  · intro transparent
    by_cases single : parts.length = 1
    · exact .inl single
    · have configured := transparent_unconfigured inside transparent (by omega)
      have zero := zero_of_transparent configured filled single total transparent
      exact .inr ⟨configured, zero, fun r low high =>
        balanced_of_transparent configured filled zero transparent low high⟩
  · rintro (single | ⟨configured, zero, balanced⟩)
    · obtain ⟨whole, rfl⟩ := List.length_eq_one_iff.mp single
      obtain rfl : whole = numLayers := by simpa using total
      exact transparent_single whole hfConfig
    · exact transparent_of_balanced configured filled total zero balanced

/-- For a list of distinct ids from 1 on, the placeholders match when no stage starts at the
number of an auxiliary id. -/
theorem placeholders_distinct {aux : List Int} (distinct : aux.Nodup) (positive : ∀ c ∈ aux, 1 ≤ c)
    (startLayer : Nat) :
    aux.countP (· < (startLayer : Int)) =
        (List.range' 1 startLayer).countP (fun l : Nat => (l : Int) ∈ aux) ↔
      (startLayer : Int) ∉ aux := by
  have below (k : Nat) : (List.range' 1 k).countP (fun l : Nat => (l : Int) ∈ aux) =
      aux.countP (· < ((k + 1 : Nat) : Int)) := by
    rw [List.countP_eq_length_filter, List.countP_eq_length_filter, ← List.length_map (Nat.cast : Nat → Int)]
    refine List.Perm.length_eq ((List.perm_ext_iff_of_nodup ?_ (distinct.filter _)).mpr fun c => ?_)
    · exact ((List.nodup_range' 1).filter _).map Nat.cast_injective
    · simp only [List.mem_map, List.mem_filter, List.mem_range'_1, decide_eq_true_eq]
      constructor
      · rintro ⟨l, ⟨⟨_, high⟩, member⟩, rfl⟩
        exact ⟨member, by omega⟩
      · rintro ⟨member, high⟩
        have low := positive c member
        exact ⟨c.toNat, ⟨⟨by omega, by omega⟩, by rwa [Int.toNat_of_nonneg (by omega)]⟩, by omega⟩
  rw [below, List.countP_eq_length_filter, List.countP_eq_length_filter]
  constructor
  · intro same member
    have part : (aux.filter fun c => decide (c < (startLayer : Int))).Sublist
        (aux.filter fun c => decide (c < ((startLayer + 1 : Nat) : Int))) :=
      List.monotone_filter_right _ fun c less => by
        simp only [decide_eq_true_eq] at less ⊢
        omega
    have listed : (startLayer : Int) ∈ aux.filter fun c => decide (c < ((startLayer + 1 : Nat) : Int)) := by
      simp [member]
    rw [← part.eq_of_length same] at listed
    simp at listed
  · intro absent
    refine congrArg List.length (List.filter_congr fun c member => ?_)
    have other : c ≠ startLayer := fun same => absent (same ▸ member)
    exact decide_eq_decide.mpr ⟨fun less => by omega, fun less => by omega⟩

end Transparency

theorem transparent_twoStages : Transparent (ρ := ℚ) 3 ⟨[1, 3], none⟩ [2, 1] ℚ :=
  (transparent_iff (show [2, 1] ≠ [] by decide) (show [2, 1].sum = 3 from rfl)
    (by simp [aifdConfigFrom])).mpr (.inr ⟨rfl, by decide, fun r low high => by
      obtain rfl : r = 1 := Nat.le_antisymm (Nat.lt_succ_iff.mp high) low
      decide⟩)

/-- The first stage sends the output of its last layer, for which no placeholder is made. -/
theorem transparent_boundaryId :
    ¬ ∀ (numLayers : Nat) (hfConfig : HfConfig) (parts : List Nat), parts ≠ [] →
      parts.sum = numLayers →
      (∀ c ∈ hfConfig.eagleAuxHiddenStateLayerIds, 0 ≤ c ∧ c ≤ numLayers) →
      (∀ cfg, aifdConfigFrom hfConfig = some cfg → ∀ c ∈ cfg.candidates, 1 ≤ c ∧ c < numLayers) →
      Transparent (ρ := ℚ) numLayers hfConfig parts ℚ := by
  intro claim
  have transparent := claim 2 ⟨[1], none⟩ [1, 1] (by decide) rfl (by decide)
    (by simp [aifdConfigFrom])
  have expected := (transparent (silentDecoder ℚ ℚ)).2 _ rfl 0 _ rfl
  exact absurd expected (by decide +kernel)

end DreamAifd.PipelineStages
