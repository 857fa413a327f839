import DreamAifd.ChannelContract
import DreamAifd.ArrowDataset
import DreamAifd.Gather

/-! From the launch script to a training sample: the launcher lists the layers, the server
collects them by membership in layer order, and the dataset cuts the channels by position. -/
namespace DreamAifd.LaunchChannels

open ArrowDataset Gather Segments Trace

structure LaunchArgs where
  targetLayerIds : Option (List Int)
  includeLastLayer : Bool
  aifdCandidateLayers : Option (List Int)
  aifdGranularity : Granularity
  /-- The parser takes no empty list. -/
  given : targetLayerIds ≠ some []

def granularityText : Granularity → String
  | .sample => "sample"
  | .token => "token"

namespace LaunchArgs

variable (args : LaunchArgs) (numHiddenLayers : Nat)

def candidates : List Int := args.aifdCandidateLayers.getD []

def launchLayerIds : List Int :=
  match args.targetLayerIds with
  | some ids =>
    if args.includeLastLayer ∧ (numHiddenLayers : Int) ∉ ids then ids ++ [(numHiddenLayers : Int)] else ids
  | none => [2, (numHiddenLayers : Int) / 2, (numHiddenLayers : Int) - 3, numHiddenLayers]

def hfConfig : HfConfig where
  eagleAuxHiddenStateLayerIds := args.launchLayerIds numHiddenLayers
  aifdConfig :=
    if args.candidates = [] then none
    else some ⟨some args.candidates, some (granularityText args.aifdGranularity)⟩

def aifdChannels : Nat := if args.candidates = [] then 0 else 1

end LaunchArgs

def resolveTargetLayerIds (targetLayerIds : Option (List Int)) (numLayers : Nat) : List Int :=
  targetLayerIds.getD [2, (numLayers : Int) / 2, (numLayers : Int) - 3]

/-- Each layer once, in ascending order. -/
def ascending (layerIds : List Int) : List Int := layerIds.dedup.insertionSort (· ≤ ·)

section Sample

variable {ρ : Type*} [Zero ρ]

def stackChannels (numTokens : Nat) (channels : List (List ρ)) : List (List ρ) :=
  (List.range numTokens).map fun t => channels.map (·.getD t 0)

/-- The file of a request whose tokens start at `offset` of a forward. -/
def extracted (numTokens : Nat) (channels : List (List ρ)) (offset : Nat) (tokenIds : List Nat) : LoadedHs ρ where
  tokenIds := tokenIds
  numChannels := channels.length
  hiddenStates := slice offset tokenIds.length (stackChannels numTokens channels)
  shaped := by
    intro row member
    obtain ⟨t, -, rfl⟩ := List.mem_map.mp (List.mem_of_mem_drop (List.mem_of_mem_take member))
    exact List.length_map _

end Sample

section Agreement

variable {α ρ : Type*} [Field α] [LinearOrder α] [Add ρ] [Zero ρ]

/-- What training takes a sample for: its own layers, the output of the last one, and the
selected layer's. -/
def expected (args : LaunchArgs) (numLayers : Nat) (f : Forward α ρ) (offset : Nat) (row : DatasetRow) :
    RawData ρ where
  hiddenStates := slice offset row.inputIds.length ((List.range f.numTokens).map fun t =>
    (ascending (resolveTargetLayerIds args.targetLayerIds numLayers)).map (f.row · t))
  inputIds := row.inputIds
  verifierLastHiddenStates := slice offset row.inputIds.length ((List.range f.numTokens).map (f.row numLayers))
  lossMask := row.lossMask
  aifdHiddenStates :=
    if args.candidates = [] then none
    else some (slice offset row.inputIds.length
      (f.channel (args.candidates.insertionSort (· ≤ ·)) args.aifdGranularity numLayers))

/-- Every sample of every forward that returns is taken for what it is. -/
def ChannelsAgree (args : LaunchArgs) (numLayers : Nat) (e : Engine α ρ) : Prop :=
  ∀ f p, runForward e numLayers f = .done p → ∀ offset row,
    getRawData args.aifdChannels (extracted f.numTokens p.auxList offset row.inputIds) row =
      some (expected args numLayers f offset row)

end Agreement

/-- The training ids name layers in front of the last one, and so do the candidates of a
selection the server can switch on. -/
def Separate (args : LaunchArgs) (model : TargetModel) : Prop :=
  (∀ id ∈ resolveTargetLayerIds args.targetLayerIds model.numLayers, 0 ≤ id ∧ id < model.numLayers) ∧
    (args.candidates = [] ∨ (findLayers model.paths).isSome ∧
      ∀ c ∈ args.candidates, 1 ≤ c ∧ c < model.numLayers)

def listed (layerIds : List Int) (numLayers : Nat) : List Nat :=
  (List.range numLayers).filter fun layerIdx => ((layerIdx : Nat) : Int) ∈ layerIds

section Listed

variable {layerIds : List Int} {numLayers : Nat}

theorem listed_subset : (listed layerIds numLayers).map ((↑) : Nat → Int) ⊆ layerIds.dedup := by
  intro id member
  obtain ⟨layerIdx, here, rfl⟩ := List.mem_map.mp member
  exact List.mem_dedup.mpr (of_decide_eq_true (List.mem_filter.mp here).2)

theorem listed_nodup : ((listed layerIds numLayers).map ((↑) : Nat → Int)).Nodup :=
  (List.nodup_range.filter _).map Nat.cast_injective

theorem length_ascending (layerIds : List Int) : (ascending layerIds).length = layerIds.dedup.length :=
  List.length_insertionSort ..

theorem length_listed_le (layerIds : List Int) (numLayers : Nat) :
    (listed layerIds numLayers).length ≤ (ascending layerIds).length := by
  have fewer : ((listed layerIds numLayers).map ((↑) : Nat → Int)).length ≤ layerIds.dedup.length :=
    (listed_nodup.subperm listed_subset).length_le
  rwa [List.length_map, ← length_ascending layerIds] at fewer

/-- Nothing else is listed as soon as as many layers are. -/
theorem listed_perm (all : (ascending layerIds).length ≤ (listed layerIds numLayers).length) :
    ((listed layerIds numLayers).map ((↑) : Nat → Int)).Perm layerIds.dedup := by
  apply (listed_nodup.subperm listed_subset).perm_of_length_le
  rwa [List.length_map, ← length_ascending layerIds]

theorem inside_of_length (all : (ascending layerIds).length ≤ (listed layerIds numLayers).length) :
    ∀ id ∈ layerIds, 0 ≤ id ∧ id < numLayers := by
  intro id member
  have here := (listed_perm all).mem_iff.mpr (List.mem_dedup.mpr member)
  obtain ⟨layerIdx, kept, rfl⟩ := List.mem_map.mp here
  have bound := List.mem_range.mp (List.mem_filter.mp kept).1
  omega

/-- Layers in front of the last one are collected once each, in ascending order. -/
theorem ascending_eq (inside : ∀ id ∈ layerIds, 0 ≤ id ∧ id < numLayers) :
    ascending layerIds = (listed layerIds numLayers).map ((↑) : Nat → Int) := by
  have covers : layerIds.dedup ⊆ (listed layerIds numLayers).map ((↑) : Nat → Int) := by
    intro id member
    obtain ⟨low, high⟩ := inside id (List.mem_dedup.mp member)
    obtain ⟨layerIdx, rfl⟩ := Int.eq_ofNat_of_zero_le low
    apply List.mem_map_of_mem
    exact List.mem_filter.mpr ⟨List.mem_range.mpr (by omega), decide_eq_true (List.mem_dedup.mp member)⟩
  have same : layerIds.dedup.Perm ((listed layerIds numLayers).map ((↑) : Nat → Int)) :=
    ((List.nodup_dedup layerIds).subperm covers).antisymm (listed_nodup.subperm listed_subset)
  have increasing : ((listed layerIds numLayers).map ((↑) : Nat → Int)).Pairwise (· ≤ ·) := by
    apply List.pairwise_map.mpr
    apply (List.pairwise_lt_range.filter _).imp
    intro a b less
    exact Int.ofNat_le.mpr less.le
  exact ((List.perm_insertionSort (· ≤ ·) _).trans same).eq_of_pairwise'
    (List.pairwise_insertionSort (· ≤ ·) _) increasing

end Listed

section Launch

variable {args : LaunchArgs} {N : Nat}

theorem last_launched (included : args.includeLastLayer = true) : (N : Int) ∈ args.launchLayerIds N := by
  unfold LaunchArgs.launchLayerIds
  cases args.targetLayerIds with
  | none => simp
  | some ids =>
    dsimp only
    split
    next => simp
    next present => simpa [included] using present

/-- In front of the last layer the server is configured with training's layers. -/
theorem launched_iff {layerIdx : Nat} (before : layerIdx < N) :
    (layerIdx : Int) ∈ args.launchLayerIds N ↔
      (layerIdx : Int) ∈ resolveTargetLayerIds args.targetLayerIds N := by
  have other : (layerIdx : Int) ≠ N := by omega
  unfold LaunchArgs.launchLayerIds resolveTargetLayerIds
  cases args.targetLayerIds with
  | none => simp [other]
  | some ids =>
    dsimp only
    split
    · simp [other]
    · simp

variable {α ρ : Type*} [Add ρ]

theorem auxOutputs_launch (included : args.includeLastLayer = true) (f : Forward α ρ) :
    f.auxOutputs (args.launchLayerIds N) N =
      (listed (resolveTargetLayerIds args.targetLayerIds N) N).map f.value ++ [f.value N] := by
  have front : (List.range N).filter (fun layerIdx => ((layerIdx : Nat) : Int) ∈ args.launchLayerIds N) =
      listed (resolveTargetLayerIds args.targetLayerIds N) N := by
    apply List.filter_congr
    intro layerIdx member
    exact decide_eq_decide.mpr (launched_iff (List.mem_range.mp member))
  have last : decide ((N : Int) ∈ args.launchLayerIds N) = true := decide_eq_true (last_launched included)
  rw [Forward.auxOutputs, List.range_succ, List.filter_append, front, List.filter_cons, if_pos last,
    List.filter_nil, List.map_append, List.map_singleton]

end Launch

section Split

variable {ρ : Type*}

theorem pyGet_middle (front : List ρ) (x : ρ) (back : List ρ) :
    pyGet (front ++ x :: back) front.length = some x := by
  rw [pyGet, if_pos (Int.natCast_nonneg _), Int.toNat_natCast, List.getElem?_append_right le_rfl, Nat.sub_self]
  rfl

theorem pyGet_last (front : List ρ) (x : ρ) : pyGet (front ++ [x]) (-1) = some x := by
  have size : (front ++ [x]).length = front.length + 1 := List.length_append
  have reach : -(-1 : Int) ≤ ((front ++ [x]).length : Int) := by
    rw [size]
    omega
  have place : (front ++ [x]).length - (-(-1 : Int)).toNat = front.length := by
    rw [size]
    rfl
  rw [pyGet, if_neg (by decide), if_pos reach, place, List.getElem?_append_right le_rfl, Nat.sub_self]
  rfl

theorem pyTake_front (front back : List ρ) : pyTake (front ++ back) front.length = front := by
  rw [pyTake, if_pos (Int.natCast_nonneg _), Int.toNat_natCast, List.take_left]

theorem length_pyTake_short {xs : List ρ} {k : Nat} (size : xs.length = k + 1) :
    (pyTake xs ((k : Int) + 1 - 1 - 1)).length = k - 1 := by
  unfold pyTake
  split
  next => rw [List.length_take]; omega
  next => rw [List.length_take]; omega

variable [Zero ρ] {channels : List (List ρ)} {numTokens offset n : Nat}

theorem mapM_extracted {f : List ρ → Option ρ} {g : Nat → ρ} (each : ∀ t, f (channels.map (·.getD t 0)) = some (g t)) :
    (slice offset n (stackChannels numTokens channels)).mapM f =
      some (slice offset n ((List.range numTokens).map g)) := by
  rw [stackChannels, slice_map, slice_map, List.mapM_map]
  exact mapM_some fun t _ => each t

/-- The dataset's cut of channels collected as auxiliary ones, the last layer's, and maybe
one behind it. -/
theorem getRawData_extracted (front : List (List ρ)) (verifier : List ρ) (channel : Option (List ρ))
    (numTokens offset : Nat) (row : DatasetRow) :
    getRawData channel.toList.length
        (extracted numTokens (front ++ verifier :: channel.toList) offset row.inputIds) row = some {
      hiddenStates := slice offset row.inputIds.length
        ((List.range numTokens).map fun t => front.map (·.getD t 0))
      inputIds := row.inputIds
      verifierLastHiddenStates := slice offset row.inputIds.length ((List.range numTokens).map (verifier.getD · 0))
      lossMask := row.lossMask
      aifdHiddenStates := channel.map fun rows =>
        slice offset row.inputIds.length ((List.range numTokens).map (rows.getD · 0)) } := by
  have last : ((front ++ verifier :: channel.toList).length : Int) - 1 - (channel.toList.length : Int) =
      front.length := by
    rw [List.length_append, List.length_cons]
    push_cast
    ring
  have verifierRows : (slice offset row.inputIds.length
      (stackChannels numTokens (front ++ verifier :: channel.toList))).mapM (pyGet · front.length) =
      some (slice offset row.inputIds.length ((List.range numTokens).map (verifier.getD · 0))) := by
    apply mapM_extracted
    intro t
    have middle := pyGet_middle (front.map (·.getD t 0)) (verifier.getD t 0) (channel.toList.map (·.getD t 0))
    rw [List.length_map] at middle
    rw [List.map_append, List.map_cons, middle]
  have auxRows : (slice offset row.inputIds.length
      (stackChannels numTokens (front ++ verifier :: channel.toList))).map (pyTake · front.length) =
      slice offset row.inputIds.length ((List.range numTokens).map fun t => front.map (·.getD t 0)) := by
    rw [stackChannels, ← slice_map, List.map_map]
    apply congrArg (slice offset row.inputIds.length)
    apply List.map_congr_left
    intro t _
    have cut := pyTake_front (front.map (·.getD t 0)) ((verifier :: channel.toList).map (·.getD t 0))
    rwa [List.length_map, ← List.map_append] at cut
  have channelRows : aifdRows channel.toList.length (slice offset row.inputIds.length
      (stackChannels numTokens (front ++ verifier :: channel.toList))) = some (channel.map fun rows =>
        slice offset row.inputIds.length ((List.range numTokens).map (rows.getD · 0))) := by
    cases channel with
    | none => rfl
    | some rows =>
      rw [aifdRows, if_neg (by simp), mapM_extracted]
      · rfl
      · intro t
        have behind := pyGet_last ((front ++ [verifier]).map (·.getD t 0)) (rows.getD t 0)
        rw [Option.toList_some, List.append_cons, List.map_append, List.map_singleton, behind]
  have same : checkTokens (extracted numTokens (front ++ verifier :: channel.toList) offset row.inputIds) row =
      some (extracted numTokens (front ++ verifier :: channel.toList) offset row.inputIds) :=
    checkTokens_eq_some.mpr ⟨rfl, rfl⟩
  rw [getRawData, same]
  simp only [extracted, last, verifierRows, auxRows, channelRows, Option.bind_eq_bind, Option.bind_some]

end Split

section Engine

variable {α ρ : Type*} [Field α] [LinearOrder α] [Add ρ] [Zero ρ] {args : LaunchArgs} {N : Nat} {e : Engine α ρ}

theorem ascending_ne_nil (args : LaunchArgs) (N : Nat) :
    0 < (ascending (resolveTargetLayerIds args.targetLayerIds N)).length := by
  have filled : resolveTargetLayerIds args.targetLayerIds N ≠ [] := by
    unfold resolveTargetLayerIds
    cases named : args.targetLayerIds with
    | none => simp
    | some ids =>
      rintro rfl
      exact args.given named
  obtain ⟨id, member⟩ := List.exists_mem_of_ne_nil _ filled
  rw [length_ascending]
  exact List.length_pos_of_mem (List.mem_dedup.mpr member)

/-- A forward of some tokens shows how many channels the cut leaves for training's layers. -/
theorem agree_length {f : Forward α ρ} {p : Pass α ρ} (agree : ChannelsAgree args N e)
    (ran : runForward e N f = .done p) (tokens : 0 < f.numTokens) :
    (pyTake (p.auxList.map (·.getD 0 0)) ((p.auxList.length : Int) - 1 - args.aifdChannels)).length =
      (ascending (resolveTargetLayerIds args.targetLayerIds N)).length := by
  have hidden := getRawData_hidden (agree f p ran 0 ⟨[0], []⟩)
  have rows : slice 0 1 (List.range f.numTokens) = [0] := by
    obtain ⟨rest, many⟩ := Nat.exists_eq_add_of_lt tokens
    rw [slice_range (by omega)]
    rfl
  simp only [expected, extracted, stackChannels, List.length_singleton, slice_map, rows, List.map_singleton,
    List.cons.injEq, and_true] at hidden
  rw [← hidden, List.length_map]

/-- Where a channel is expected and none was appended, the cut takes one layer too few. -/
theorem not_agree_silent (expects : args.candidates ≠ []) {f : Forward α ρ} {p : Pass α ρ}
    (ran : runForward e N f = .done p) (tokens : 0 < f.numTokens)
    (aux : p.auxList.length = (listed (resolveTargetLayerIds args.targetLayerIds N) N).length + 1) :
    ¬ ChannelsAgree args N e := by
  intro agree
  have taken := agree_length agree ran tokens
  have channels : args.aifdChannels = 1 := if_neg expects
  have fewer := length_listed_le (resolveTargetLayerIds args.targetLayerIds N) N
  have some_layer := ascending_ne_nil args N
  rw [channels, aux] at taken
  push_cast at taken
  rw [length_pyTake_short ((List.length_map _).trans aux)] at taken
  omega

theorem inside_of_agree {f : Forward α ρ} {p : Pass α ρ} (agree : ChannelsAgree args N e)
    (ran : runForward e N f = .done p) (tokens : 0 < f.numTokens)
    (aux : p.auxList.length = (listed (resolveTargetLayerIds args.targetLayerIds N) N).length + 1 + args.aifdChannels) :
    ∀ id ∈ resolveTargetLayerIds args.targetLayerIds N, 0 ≤ id ∧ id < N := by
  apply inside_of_length
  have cut : (p.auxList.length : Int) - 1 - args.aifdChannels =
      ((listed (resolveTargetLayerIds args.targetLayerIds N) N).length : Int) := by
    rw [aux]
    push_cast
    ring
  rw [← agree_length agree ran tokens, cut, pyTake, if_pos (Int.natCast_nonneg _), Int.toNat_natCast,
    List.length_take]
  exact Nat.min_le_left _ _

/-- With training's layers in front of the last one, and the channel appended where one is
expected, the dataset's cut is right. -/
theorem split_right (inside : ∀ id ∈ resolveTargetLayerIds args.targetLayerIds N, 0 ≤ id ∧ id < N)
    {f : Forward α ρ} {channel : Option (List ρ)} (expects : channel = if args.candidates = [] then none
      else some (f.channel (args.candidates.insertionSort (· ≤ ·)) args.aifdGranularity N))
    (offset : Nat) (row : DatasetRow) :
    getRawData args.aifdChannels (extracted f.numTokens
        ((listed (resolveTargetLayerIds args.targetLayerIds N) N).map f.value ++ f.value N :: channel.toList) offset
        row.inputIds) row = some (expected args N f offset row) := by
  have count : args.aifdChannels = channel.toList.length := by
    rw [expects, LaunchArgs.aifdChannels]
    split <;> rfl
  rw [count, getRawData_extracted, expected, ascending_eq inside, expects]
  congr 2
  · simp only [List.map_map]
    rfl
  · split
    next => rfl
    next =>
      apply congrArg some
      apply congrArg (slice offset row.inputIds.length)
      exact (eq_map_range_getD _ 0 (f.length_channel ..)).symm

def twoTokens (α ρ : Type*) [Field α] [Zero ρ] : Forward α ρ :=
  scriptedForward 1 2 [2] (fun _ => some fun _ _ => 0) fun _ _ => 0

/-- An engine without the selection. -/
theorem channelsAgree_disabled (included : args.includeLastLayer = true) (disabled : e.state.enabled = false)
    (aux : e.auxHiddenStateLayers = args.launchLayerIds N) :
    ChannelsAgree args N e ↔ (∀ id ∈ resolveTargetLayerIds args.targetLayerIds N, 0 ≤ id ∧ id < N) ∧
      args.candidates = [] := by
  have ran (f : Forward α ρ) := runForward_disabled (N := N) disabled f
  simp only [aux, auxOutputs_launch included] at ran
  constructor
  · intro agree
    have single : args.candidates = [] := by
      by_contra expects
      exact not_agree_silent expects (ran (twoTokens α ρ)) Nat.two_pos (by simp) agree
    have channels : args.aifdChannels = 0 := if_pos single
    exact ⟨inside_of_agree agree (ran (twoTokens α ρ)) Nat.two_pos (by simp [channels]), single⟩
  · rintro ⟨inside, single⟩ f p completed offset row
    rw [ran] at completed
    cases completed
    exact split_right inside (if_pos single).symm offset row

/-- An engine with the selection switched on. -/
theorem channelsAgree_live (included : args.includeLastLayer = true) (live : Live e N) (ready : Ready e.state)
    (aux : e.auxHiddenStateLayers = args.launchLayerIds N) (expects : args.candidates ≠ [])
    (candidates : e.state.candidates = args.candidates.insertionSort (· ≤ ·))
    (granularity : e.state.granularity = args.aifdGranularity) :
    ChannelsAgree args N e ↔ (∀ id ∈ resolveTargetLayerIds args.targetLayerIds N, 0 ≤ id ∧ id < N) ∧
      (N : Int) ∉ e.state.candidates := by
  have channels : args.aifdChannels = 1 := if_neg expects
  have outputs (f : Forward α ρ) : f.auxOutputs e.auxHiddenStateLayers N =
      (listed (resolveTargetLayerIds args.targetLayerIds N) N).map f.value ++ [f.value N] := by
    rw [aux, auxOutputs_launch included]
  constructor
  · intro agree
    have last : (N : Int) ∉ e.state.candidates := by
      intro member
      have segmented : (twoTokens α ρ).Segmented e.state.candidates N :=
        segmented_scriptedForward Nat.one_lt_two rfl _ _ _ _
      have ran := runForward_stash live (twoTokens α ρ) ready.seqLengths member segmented
      rw [outputs] at ran
      exact not_agree_silent expects ran Nat.two_pos (by simp) agree
    have emits : (twoTokens α ρ).Emits e.state.candidates N :=
      emits_scriptedForward Nat.one_lt_two rfl (fun _ _ _ => 0) _ last
    have ran := runForward_emits live ready (twoTokens α ρ) emits.1 emits.2.1 emits.2.2
    rw [outputs] at ran
    exact ⟨inside_of_agree agree ran Nat.two_pos (by simp [channels]), last⟩
  · rintro ⟨inside, last⟩ f p completed offset row
    obtain ⟨-, segmented, uniform⟩ := emits_of_done live ready last completed
    rw [runForward_emits live ready f last segmented uniform, outputs, candidates, granularity] at completed
    cases completed
    rw [List.append_assoc, List.singleton_append]
    exact split_right inside (if_neg expects).symm offset row

end Engine

section Loaded

variable {α ρ : Type*} {args : LaunchArgs} {model : TargetModel}

def LaunchArgs.aifdConfig (args : LaunchArgs) : AifdConfig :=
  ⟨some args.candidates, some (granularityText args.aifdGranularity)⟩

theorem configured_of_candidates (expects : args.candidates ≠ []) (N : Nat) :
    aifdConfigFrom (args.hfConfig N) = some args.aifdConfig :=
  aifdConfigFrom_eq_some.mpr ⟨if_neg expects, expects⟩

theorem parsedGranularity_eq (args : LaunchArgs) : args.aifdConfig.parsedGranularity = args.aifdGranularity := by
  have sample : (granularityText .sample).toLower ≠ "token" := by decide +kernel
  have token : (granularityText .token).toLower = "token" := by decide +kernel
  unfold AifdConfig.parsedGranularity LaunchArgs.aifdConfig
  cases args.aifdGranularity with
  | sample => exact if_neg sample
  | token => exact if_pos token

theorem load_plain (single : args.candidates = []) (N : Nat) :
    load α ρ model (args.hfConfig N) = .done (.unhooked (args.launchLayerIds N)) := by
  have none : aifdConfigFrom (args.hfConfig N) = none := by
    rw [aifdConfigFrom, LaunchArgs.hfConfig, if_pos single]
  rw [load, maybeEnableAifd, none]
  rfl

/-- The candidates lie in front of the last layer, for a selection that is switched on. -/
theorem accepts_iff : Accepts model args.aifdConfig ∧ (model.numLayers : Int) ∉ args.aifdConfig.candidates ↔
    (findLayers model.paths).isSome ∧ ∀ c ∈ args.candidates, 1 ≤ c ∧ c < model.numLayers := by
  have same (c : Int) : c ∈ args.aifdConfig.candidates ↔ c ∈ args.candidates := List.mem_insertionSort _
  unfold Accepts InRange
  simp only [same]
  constructor
  · rintro ⟨⟨found, inside⟩, last⟩
    refine ⟨found, ?_⟩
    intro c member
    obtain ⟨low, high⟩ := inside c member
    have other : c ≠ model.numLayers := fun equal => last (equal ▸ member)
    omega
  · rintro ⟨found, inside⟩
    refine ⟨⟨found, ?_⟩, ?_⟩
    · intro c member
      obtain ⟨low, high⟩ := inside c member
      omega
    · intro member
      exact absurd (inside _ member).2 (lt_irrefl _)

variable [Field α] [LinearOrder α] [Add ρ] [Zero ρ]

/-- Behind a harmless history, launcher, server and dataset agree on the channels exactly
when training's layers and the candidates all lie in front of the last layer. -/
theorem channelsAgree_iff (included : args.includeLastLayer = true) {e : Engine α ρ}
    (loaded : load α ρ model (args.hfConfig model.numLayers) = .done e) {history : List (Attempt α ρ)}
    (harmless : ∀ a ∈ history, a.Harmless (args.candidates.insertionSort (· ≤ ·)) model.numLayers) :
    ChannelsAgree args model.numLayers (serve model.numLayers history e) ↔ Separate args model := by
  by_cases single : args.candidates = []
  · rw [load_plain single] at loaded
    cases loaded
    have disabled : (Engine.unhooked (α := α) (ρ := ρ) (args.launchLayerIds model.numLayers)).state.enabled = false :=
      rfl
    rw [serve_disabled history disabled, channelsAgree_disabled included disabled rfl]
    exact and_congr_right fun _ => ⟨.inl, fun _ => single⟩
  · obtain ⟨aux, ready, ⟨accepts, live, candidates, granularity⟩ | ⟨declined, disabled⟩⟩ :=
      load_cases (configured_of_candidates single _) loaded
    · have sorted : e.state.candidates = args.candidates.insertionSort (· ≤ ·) := candidates
      obtain ⟨s, reached, clean, setup⟩ := serve_harmless history live ready (sorted ▸ harmless)
      have same : s.candidates = args.aifdConfig.candidates := setup.candidates.trans candidates
      rw [reached, channelsAgree_live included (live.withState setup) clean aux single same
        (setup.granularity.trans (granularity.trans (parsedGranularity_eq args)))]
      apply and_congr_right
      intro _
      rw [or_iff_right single, ← accepts_iff, same]
      exact ⟨fun last => ⟨accepts, last⟩, And.right⟩
    · rw [serve_disabled history disabled, channelsAgree_disabled included disabled aux]
      apply and_congr_right
      intro _
      rw [or_iff_right single, ← accepts_iff]
      exact ⟨fun none => absurd none single, fun accepts => absurd accepts.1 declined⟩

end Loaded

def defaultLayers : LaunchArgs := ⟨none, true, some [2, 1], .sample, by decide⟩

theorem channelsAgree_defaultLayers :
    ChannelsAgree defaultLayers 3 (plainEngine 3 [2, 1, 0, 3] [2, 1]) := by
  have loaded : load ℚ ℚ (plainModel 3) (defaultLayers.hfConfig 3) = .done (plainEngine 3 [2, 1, 0, 3] [2, 1]) := rfl
  exact (channelsAgree_iff rfl loaded (List.forall_mem_nil _)).mpr ⟨by decide, .inr ⟨rfl, by decide⟩⟩

def lastListed : LaunchArgs := ⟨some [1, 3], true, none, .sample, by decide⟩

/-- The launcher lists it once, the dataset takes it for the verifier's channel, and training
misses it among its layers. -/
theorem channelsAgree_lastListed : ¬ ChannelsAgree lastListed 3 (Engine.unhooked (α := ℚ) (ρ := ℚ)
    (lastListed.launchLayerIds 3)) := by
  intro agree
  have ran := runForward_disabled (N := 3) (e := Engine.unhooked (lastListed.launchLayerIds 3)) rfl (rampForward 2)
  have taken := agree_length agree ran Nat.two_pos
  exact absurd taken (by decide +kernel)

end DreamAifd.LaunchChannels
