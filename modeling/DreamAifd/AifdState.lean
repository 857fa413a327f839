import DreamAifd.Dict
import DreamAifd.Trace

/-! State and configuration of the entropy-guided layer selection, and the load-time
registration of its hooks. Layer ids follow `eagle_aux_hidden_state_layer_ids`: id `L` is
the output of decoder layer `L - 1`, id 0 the embedding. -/
namespace DreamAifd

open Trace

inductive Granularity where
  | sample
  | token
  deriving DecidableEq, Repr

/-- Scratch data of one forward. The process holds a single one of these. -/
structure AifdState (α ρ : Type*) where
  candidates : List Int := []
  /-- Head-mean entropy of every token, by layer id. -/
  entropy : Dict Int (List α) := Dict.empty
  /-- Output rows, by layer id. -/
  hidden : Dict Int (List ρ) := Dict.empty
  seqLengths : Option (List Nat) := none
  enabled : Bool := false
  keepBos : Bool := true
  granularity : Granularity := .sample
  emitted : Bool := false
  numLayers : Nat := 0

variable {α ρ : Type*}

def AifdState.reset (s : AifdState α ρ) : AifdState α ρ :=
  { s with entropy := .empty, hidden := .empty, seqLengths := none, emitted := false }

structure SameSetup (s t : AifdState α ρ) : Prop where
  candidates : t.candidates = s.candidates
  enabled : t.enabled = s.enabled
  keepBos : t.keepBos = s.keepBos
  granularity : t.granularity = s.granularity
  numLayers : t.numLayers = s.numLayers

theorem SameSetup.refl (s : AifdState α ρ) : SameSetup s s := ⟨rfl, rfl, rfl, rfl, rfl⟩

theorem SameSetup.trans {s t u : AifdState α ρ} (first : SameSetup s t) (second : SameSetup t u) :
    SameSetup s u where
  candidates := second.candidates.trans first.candidates
  enabled := second.enabled.trans first.enabled
  keepBos := second.keepBos.trans first.keepBos
  granularity := second.granularity.trans first.granularity
  numLayers := second.numLayers.trans first.numLayers

theorem sameSetup_reset (s : AifdState α ρ) : SameSetup s s.reset := ⟨rfl, rfl, rfl, rfl, rfl⟩

structure AifdConfig where
  candidateLayers : Option (List Int)
  granularity : Option String

structure HfConfig where
  eagleAuxHiddenStateLayerIds : List Int
  /-- Absent when the attribute is missing or is not a dictionary. -/
  aifdConfig : Option AifdConfig

def aifdConfigFrom (hfConfig : HfConfig) : Option AifdConfig :=
  match hfConfig.aifdConfig with
  | none => none
  | some cfg => if (cfg.candidateLayers.getD []).isEmpty then none else some cfg

def aifdExtraChannels (hfConfig : HfConfig) : Nat :=
  if (aifdConfigFrom hfConfig).isSome then 1 else 0

/-- Channels the proposer allocates; it refuses a config without auxiliary layers. -/
def numHiddenStates (hfConfig : HfConfig) : Option Nat :=
  if hfConfig.eagleAuxHiddenStateLayerIds.isEmpty then none
  else some (hfConfig.eagleAuxHiddenStateLayerIds.length + aifdExtraChannels hfConfig)

theorem aifdConfigFrom_eq_some {hfConfig : HfConfig} {cfg : AifdConfig} :
    aifdConfigFrom hfConfig = some cfg ↔
      hfConfig.aifdConfig = some cfg ∧ cfg.candidateLayers.getD [] ≠ [] := by
  unfold aifdConfigFrom
  cases hfConfig.aifdConfig with
  | none => simp
  | some other =>
    simp only [List.isEmpty_iff, Option.some.injEq]
    constructor
    · intro h
      split at h
      · contradiction
      next nonempty => cases h; exact ⟨rfl, nonempty⟩
    · rintro ⟨rfl, nonempty⟩
      rw [if_neg nonempty]

inductive AifdError where
  /-- The hook's assertion on the segment lengths. -/
  | segmentSum (seqLengths : List Nat) (numTokens : Nat)
  | missingEntropy (layer : Int)
  | missingHidden (layer : Int)
  | stackSizes
  | whereSizes
  | gatherRows
  | noCandidates
  /-- A layer without `self_attn`, such as one held by another pipeline stage. -/
  | noSelfAttn (layer : Int)
  deriving DecidableEq, Repr

inductive DecoderLayer where
  | attention
  | ppMissing
  deriving DecidableEq, Repr

inductive LayerPath where
  | modelLayers
  | layers
  | languageModelModelLayers
  | languageModelLayers
  deriving DecidableEq, Repr

/-- Module lists reachable from a model; `none` where an attribute is missing or is no list. -/
abbrev Model := LayerPath → Option (List DecoderLayer)

def findLayers (model : Model) : Option (List DecoderLayer) :=
  [.modelLayers, .layers, .languageModelModelLayers, .languageModelLayers].findSome? fun path =>
    (model path).filter (· ≠ [])

/-- What loading leaves behind: the state, the layers with an attention hook in order of
registration, and whether the injection point in `EagleModelMixin` is set. -/
structure Engine (α ρ : Type*) where
  state : AifdState α ρ
  attnHooks : List Int
  aifdHook : Bool
  auxHiddenStateLayers : List Int

def Engine.fresh (e : Engine α ρ) : Engine α ρ := { e with state := e.state.reset }

def Engine.unhooked (auxHiddenStateLayers : List Int) : Engine α ρ :=
  ⟨{}, [], false, auxHiddenStateLayers⟩

/-- Register the hooks of the remaining candidates. A layer number out of range switches the
selection off and stops; hooks registered before stay. -/
def registerHooks (layers : List DecoderLayer) :
    List Int → Engine α ρ → Outcome AifdError (Engine α ρ)
  | [], e => .done e
  | auxId :: rest, e =>
    let modelIdx := auxId - 1
    if ¬ (0 ≤ modelIdx ∧ modelIdx < layers.length) then
      .done { e with state := { e.state with enabled := false } }
    else
      match layers[modelIdx.toNat]? with
      | some .attention => registerHooks layers rest { e with attnHooks := e.attnHooks ++ [auxId] }
      | _ => .raised (.noSelfAttn auxId) e

def enableAifd (model : Model) (candidates : List Int) (granularity : String)
    (e : Engine α ρ) : Outcome AifdError (Engine α ρ) :=
  if candidates = [] then .done e
  else
    match findLayers model with
    | none => .done e
    | some layers =>
      let sorted := candidates.insertionSort (· ≤ ·)
      registerHooks layers sorted
        { e with
          aifdHook := true
          state := { e.state with
            candidates := sorted
            numLayers := layers.length
            -- any other text falls back to `sample`
            granularity := if granularity = "token" then .token else .sample
            enabled := true } }

def maybeEnableAifd (model : Model) (hfConfig : HfConfig) (e : Engine α ρ) :
    Outcome AifdError (Engine α ρ) :=
  match aifdConfigFrom hfConfig with
  | none => .done e
  | some cfg =>
    enableAifd model (cfg.candidateLayers.getD []) (cfg.granularity.getD "sample").toLower e

def InRange (numLayers : Nat) (auxId : Int) : Prop := 1 ≤ auxId ∧ auxId ≤ numLayers

instance (numLayers : Nat) (auxId : Int) : Decidable (InRange numLayers auxId) :=
  inferInstanceAs (Decidable (_ ∧ _))

/-- Registration that returns has hooked a prefix of the candidates, all of them unless it
met a layer number out of range. -/
theorem registerHooks_done {layers : List DecoderLayer} {remaining : List Int}
    {e final : Engine α ρ} (returned : registerHooks layers remaining e = .done final) :
    (∀ auxId ∈ remaining, InRange layers.length auxId) ∧
        final = { e with attnHooks := e.attnHooks ++ remaining } ∨
      (∃ auxId ∈ remaining, ¬ InRange layers.length auxId) ∧
        ∃ before, before <+: remaining ∧
          final = { e with
            attnHooks := e.attnHooks ++ before
            state := { e.state with enabled := false } } := by
  induction remaining generalizing e with
  | nil => cases returned; simp
  | cons auxId rest ih =>
    rw [registerHooks] at returned
    split at returned
    next outside =>
      cases returned
      refine .inr ⟨⟨auxId, by simp, fun inside => outside ?_⟩, [], List.nil_prefix, by simp⟩
      obtain ⟨low, high⟩ := inside
      constructor <;> omega
    next inside =>
      split at returned
      next =>
        have inside' : InRange layers.length auxId := by
          rw [not_not] at inside
          constructor <;> omega
        rcases ih returned with ⟨all, rfl⟩ | ⟨⟨bad, member, outside⟩, before, part, rfl⟩
        · exact .inl ⟨by simpa using ⟨inside', all⟩, by simp⟩
        · exact .inr ⟨⟨bad, by simp [member], outside⟩, auxId :: before,
            (List.prefix_cons_inj auxId).mpr part, by simp⟩
      · contradiction

/-- With every candidate in range the only way to fail is a layer without attention. -/
theorem registerHooks_attention {layers : List DecoderLayer} {remaining : List Int}
    (e : Engine α ρ) (attention : ∀ layer ∈ layers, layer = .attention)
    (inside : ∀ auxId ∈ remaining, InRange layers.length auxId) :
    registerHooks layers remaining e = .done { e with attnHooks := e.attnHooks ++ remaining } := by
  induction remaining generalizing e with
  | nil => simp [registerHooks]
  | cons auxId rest ih =>
    obtain ⟨low, high⟩ := inside auxId (by simp)
    have bound : (auxId - 1).toNat < layers.length := by omega
    have held : layers[(auxId - 1).toNat]? = some .attention := by
      rw [List.getElem?_eq_getElem bound, attention _ (List.getElem_mem bound)]
    rw [registerHooks, if_neg (by rw [not_not]; constructor <;> omega), held]
    dsimp only
    rw [ih _ fun other member => inside other (List.mem_cons_of_mem _ member)]
    simp

end DreamAifd
