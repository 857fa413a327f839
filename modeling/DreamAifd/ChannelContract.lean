import DreamAifd.ScriptedForward

/-! Which forwards keep the channel contract with the buffers allocated from the config, and
which leave the emitting call with one channel appended and the scratch state reset. -/
namespace DreamAifd

open Trace

variable {α ρ : Type*}

section Count

variable [Add ρ]

/-- Every listed layer contributes one output exactly when the list names layers `0..N`, each
once. -/
theorem length_auxOutputs_eq_iff (f : Forward α ρ) (aux : List Int) (N : Nat) :
    (f.auxOutputs aux N).length = aux.length ↔ aux.Nodup ∧ ∀ a ∈ aux, 0 ≤ a ∧ a ≤ N := by
  set reported := (Finset.range (N + 1)).filter fun layerIdx : Nat => (layerIdx : Int) ∈ aux
  have count : (f.auxOutputs aux N).length = (reported.image ((↑) : Nat → Int)).card := by
    rw [Finset.card_image_of_injective _ Nat.cast_injective, Forward.auxOutputs, List.length_map]
    rfl
  have listed : reported.image ((↑) : Nat → Int) ⊆ aux.toFinset := by
    intro a member
    obtain ⟨layerIdx, here, rfl⟩ := Finset.mem_image.mp member
    exact List.mem_toFinset.mpr (Finset.mem_filter.mp here).2
  have bound := aux.toFinset_card_le
  rw [count]
  constructor
  · intro equal
    have every := Finset.eq_of_subset_of_card_le listed (by omega)
    have full : (aux : Multiset Int).toFinset.card = aux.length := by
      rw [← equal, every]
      rfl
    refine ⟨Multiset.toFinset_card_eq_card_iff_nodup.mp full, fun a member => ?_⟩
    rw [← List.mem_toFinset, ← every, Finset.mem_image] at member
    obtain ⟨layerIdx, here, rfl⟩ := member
    have := Finset.mem_range.mp (Finset.mem_filter.mp here).1
    omega
  · rintro ⟨distinct, inside⟩
    rw [← List.toFinset_card_of_nodup distinct]
    congr 1
    apply Finset.Subset.antisymm listed
    intro a member
    have member' := List.mem_toFinset.mp member
    obtain ⟨low, high⟩ := inside a member'
    refine Finset.mem_image.mpr ⟨a.toNat, Finset.mem_filter.mpr ⟨?_, ?_⟩, by omega⟩
    · exact Finset.mem_range.mpr (by omega)
    · rwa [Int.toNat_of_nonneg low]

end Count

variable [Field α] [LinearOrder α] [Add ρ]

/-- The auxiliary outputs in ascending layer order, one tensor of the forward's rows behind
them, and as many tensors in all as were allocated. -/
def ChannelContract (e : Engine α ρ) (numLayers : Nat) (f : Forward α ρ) (allocated : Nat) : Prop :=
  ∃ p channel, runForward e numLayers f = .done p ∧ channel.length = f.numTokens ∧
    p.auxList = f.auxOutputs e.auxHiddenStateLayers numLayers ++ [channel] ∧
    p.auxList.length = allocated

/-- One tensor behind the auxiliary outputs and nothing left in the scratch state. -/
def EmitsAndResets (e : Engine α ρ) (numLayers : Nat) (f : Forward α ρ) : Prop :=
  ∃ p channel, runForward e numLayers f = .done p ∧ channel.length = f.numTokens ∧
    p.auxList = f.auxOutputs e.auxHiddenStateLayers numLayers ++ [channel] ∧
    p.state.entropy = .empty ∧ p.state.hidden = .empty ∧ p.state.seqLengths = none ∧
    p.state.emitted = false

/-- A forward that returns measured segments that add up. -/
theorem segmented_of_done {e : Engine α ρ} {N : Nat} (live : Live e N) (ready : Ready e.state)
    {f : Forward α ρ} {p : Pass α ρ} (completed : runForward e N f = .done p) :
    f.Segmented e.state.candidates N := by
  intro m found
  by_contra mismatch
  obtain ⟨q, raised⟩ := runForward_segmentSum live f ready.seqLengths found mismatch
  rw [completed] at raised
  contradiction

/-- With the last layer no candidate, a forward that returns has emitted. -/
theorem emits_of_done {e : Engine α ρ} {N : Nat} (live : Live e N) (ready : Ready e.state)
    (last : (N : Int) ∉ e.state.candidates) {f : Forward α ρ} {p : Pass α ρ}
    (completed : runForward e N f = .done p) : f.Emits e.state.candidates N := by
  have segmented := segmented_of_done live ready completed
  refine ⟨last, segmented, ?_⟩
  by_contra mixed
  obtain ⟨c, _, _, q, _, _, raised⟩ := runForward_partial live ready f last segmented mixed
  rw [completed] at raised
  contradiction

/-- A live engine appends a channel to the auxiliary outputs in no other case. -/
theorem emits_of_appended {e : Engine α ρ} {N : Nat} (live : Live e N) (ready : Ready e.state)
    {f : Forward α ρ} {p : Pass α ρ} {channel : List ρ} (completed : runForward e N f = .done p)
    (appended : p.auxList = f.auxOutputs e.auxHiddenStateLayers N ++ [channel]) :
    f.Emits e.state.candidates N := by
  apply emits_of_done live ready _ completed
  intro member
  have segmented := segmented_of_done live ready completed
  rw [runForward_stash live f ready.seqLengths member segmented] at completed
  cases completed
  simp at appended

/-- Without the selection nothing stands behind the auxiliary outputs. -/
theorem not_appended_disabled {e : Engine α ρ} {N : Nat} (disabled : e.state.enabled = false)
    {f : Forward α ρ} {p : Pass α ρ} (completed : runForward e N f = .done p) (channel : List ρ) :
    p.auxList ≠ f.auxOutputs e.auxHiddenStateLayers N ++ [channel] := by
  rw [runForward_disabled disabled f] at completed
  cases completed
  simp

variable [Zero ρ]

theorem emitsAndResets_iff_emits {e : Engine α ρ} {N : Nat} (live : Live e N)
    (ready : Ready e.state) (f : Forward α ρ) :
    EmitsAndResets e N f ↔ f.Emits e.state.candidates N := by
  constructor
  · rintro ⟨p, channel, completed, _, appended, _⟩
    exact emits_of_appended live ready completed appended
  · rintro ⟨last, segmented, uniform⟩
    exact ⟨_, _, runForward_emits live ready f last segmented uniform, f.length_channel ..,
      rfl, rfl, rfl, rfl, rfl⟩

theorem channelContract_iff_emits {e : Engine α ρ} {N : Nat} (live : Live e N)
    (ready : Ready e.state) (f : Forward α ρ) :
    ChannelContract e N f (e.auxHiddenStateLayers.length + 1) ↔
      (e.auxHiddenStateLayers.Nodup ∧ ∀ a ∈ e.auxHiddenStateLayers, 0 ≤ a ∧ a ≤ N) ∧
        f.Emits e.state.candidates N := by
  rw [← length_auxOutputs_eq_iff f]
  constructor
  · rintro ⟨p, channel, completed, _, appended, size⟩
    refine ⟨?_, emits_of_appended live ready completed appended⟩
    simpa [appended] using size
  · rintro ⟨size, last, segmented, uniform⟩
    exact ⟨_, _, runForward_emits live ready f last segmented uniform, f.length_channel .., rfl,
      by simp [size]⟩

/-- After loading and any harmless history, the contract holds of a forward exactly when the
auxiliary ids name distinct layers, the selection could be switched on, the last layer is no
candidate, and the hooks leave the emitting call a selection it can make. -/
theorem channelContract_iff {hfConfig : HfConfig} {cfg : AifdConfig}
    (configured : aifdConfigFrom hfConfig = some cfg) {allocated : Nat}
    (allocation : numHiddenStates hfConfig = some allocated) {model : TargetModel}
    {e : Engine α ρ} (loaded : load α ρ model hfConfig = .done e) {history : List (Attempt α ρ)}
    (harmless : ∀ a ∈ history, a.Harmless cfg.candidates model.numLayers) (f : Forward α ρ) :
    ChannelContract (serve model.numLayers history e) model.numLayers f allocated ↔
      (hfConfig.eagleAuxHiddenStateLayerIds.Nodup ∧
          ∀ a ∈ hfConfig.eagleAuxHiddenStateLayerIds, 0 ≤ a ∧ a ≤ model.numLayers) ∧
        Accepts model cfg ∧ f.Emits cfg.candidates model.numLayers := by
  rcases load_cases configured loaded with
    ⟨aux, ready, ⟨accepts, live, same, _⟩ | ⟨declined, disabled⟩⟩
  · obtain ⟨s, reached, clean, setup⟩ := serve_harmless history live ready (same ▸ harmless)
    have size : allocated = e.auxHiddenStateLayers.length + 1 := by
      rw [numHiddenStates, aifdExtraChannels, configured] at allocation
      split at allocation
      · contradiction
      · simpa [aux] using allocation.symm
    have contract := channelContract_iff_emits (live.withState setup) clean f
    rw [setup.candidates, same, aux] at contract
    rw [reached, size, aux, contract]
    exact and_congr_right fun _ => ⟨fun emits => ⟨accepts, emits⟩, And.right⟩
  · rw [serve_disabled history disabled]
    constructor
    · rintro ⟨p, channel, completed, _, appended, _⟩
      exact absurd appended (not_appended_disabled disabled completed channel)
    · rintro ⟨_, accepts, _⟩
      exact absurd accepts declined

theorem channelContract_plain :
    ChannelContract (serve 3 [] (plainEngine 3 [0, 3] [2, 1])) 3 (rampForward 2) 3 :=
  have configured : aifdConfigFrom (plainConfig [0, 3] [2, 1]) = some ⟨some [2, 1], none⟩ := rfl
  have loaded : load ℚ ℚ (plainModel 3) (plainConfig [0, 3] [2, 1]) =
    .done (plainEngine 3 [0, 3] [2, 1]) := rfl
  (channelContract_iff configured rfl loaded (by simp) (rampForward 2)).mpr
    ⟨⟨by decide, by decide⟩, ⟨rfl, by decide⟩,
      emits_scriptedForward (by decide) (by decide) _ _ (by decide)⟩

/-- The last layer as a candidate: it is stashed, no emitting call follows, and the proposer
waits for a channel that never comes. -/
theorem channelContract_lastCandidate :
    ¬ ∀ (model : TargetModel) (hfConfig : HfConfig) (cfg : AifdConfig) (allocated : Nat)
      (e : Engine ℚ ℚ) (f : Forward ℚ ℚ), aifdConfigFrom hfConfig = some cfg →
      numHiddenStates hfConfig = some allocated → load ℚ ℚ model hfConfig = .done e →
      ChannelContract e model.numLayers f allocated := by
  intro claim
  have kept : ChannelContract (plainEngine 2 [1] [2]) 2 (rampForward 2) 2 :=
    claim (plainModel 2) (plainConfig [1] [2]) _ _ _ _ rfl rfl rfl
  obtain ⟨p, channel, completed, _, _, size⟩ := kept
  have ending : auxOutcome (runForward (plainEngine 2 [1] [2]) 2 (rampForward 2)) = .ok [[1, 1]] := by
    decide +kernel
  rw [completed, auxOutcome, Except.ok.injEq] at ending
  rw [ending] at size
  contradiction

/-- After loading and any harmless history, a forward emits one channel and resets the state
exactly when the selection is on, the last layer is no candidate, the first measured
segmentation adds up, and the hooks all measured or all returned early. -/
theorem emitsAndResets_iff {hfConfig : HfConfig} {cfg : AifdConfig}
    (configured : aifdConfigFrom hfConfig = some cfg) {model : TargetModel} {e : Engine α ρ}
    (loaded : load α ρ model hfConfig = .done e) {history : List (Attempt α ρ)}
    (harmless : ∀ a ∈ history, a.Harmless cfg.candidates model.numLayers) (f : Forward α ρ) :
    EmitsAndResets (serve model.numLayers history e) model.numLayers f ↔
      Accepts model cfg ∧ f.Emits cfg.candidates model.numLayers := by
  rcases load_cases configured loaded with
    ⟨_, ready, ⟨accepts, live, same, _⟩ | ⟨declined, disabled⟩⟩
  · obtain ⟨s, reached, clean, setup⟩ := serve_harmless history live ready (same ▸ harmless)
    have emission := emitsAndResets_iff_emits (live.withState setup) clean f
    rw [setup.candidates, same] at emission
    rw [reached, emission]
    exact ⟨fun emits => ⟨accepts, emits⟩, And.right⟩
  · rw [serve_disabled history disabled]
    constructor
    · rintro ⟨p, channel, completed, _, appended, _⟩
      exact absurd appended (not_appended_disabled disabled completed channel)
    · rintro ⟨accepts, _⟩
      exact absurd accepts declined

theorem emitsAndResets_plain :
    EmitsAndResets (serve 3 [] (plainEngine 3 [0, 3] [2, 1])) 3 (rampForward 2) :=
  have configured : aifdConfigFrom (plainConfig [0, 3] [2, 1]) = some ⟨some [2, 1], none⟩ := rfl
  have loaded : load ℚ ℚ (plainModel 3) (plainConfig [0, 3] [2, 1]) =
    .done (plainEngine 3 [0, 3] [2, 1]) := rfl
  (emitsAndResets_iff configured loaded (by simp) (rampForward 2)).mpr
    ⟨⟨rfl, by decide⟩, emits_scriptedForward (by decide) (by decide) _ _ (by decide)⟩

/-- One of two candidate hooks returns early: the emitting call looks up the entropy it never
stored, and raises. -/
theorem emitsAndResets_oneHookFails :
    ¬ ∀ (model : TargetModel) (hfConfig : HfConfig) (cfg : AifdConfig) (e : Engine ℚ ℚ)
      (f : Forward ℚ ℚ), aifdConfigFrom hfConfig = some cfg → Accepts model cfg →
      (model.numLayers : Int) ∉ cfg.candidates → load ℚ ℚ model hfConfig = .done e →
      EmitsAndResets e model.numLayers f := by
  intro claim
  have kept : EmitsAndResets (plainEngine 3 [0] [1, 2]) 3 (scriptedForward 1 2 [2]
      (fun idx => if idx = 0 then some fun _ _ => 0 else none) fun layerIdx _ => layerIdx) :=
    claim (plainModel 3) (plainConfig [0] [1, 2]) _ _ _ rfl ⟨rfl, by decide⟩ (by decide) rfl
  obtain ⟨p, channel, completed, _⟩ := kept
  have ending : auxOutcome (runForward (plainEngine 3 [0] [1, 2]) 3 (scriptedForward 1 2 [2]
      (fun idx => if idx = 0 then some fun _ _ => 0 else none) fun layerIdx _ => layerIdx)) =
      .error (.missingEntropy 2) := by decide +kernel
  rw [completed, auxOutcome] at ending
  contradiction

end DreamAifd
