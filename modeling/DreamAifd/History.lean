import DreamAifd.Channel

/-! Engines in service: loading, and histories of forwards of which any may be cut short by
an exception from elsewhere in the model. -/
namespace DreamAifd

open Trace

variable {α ρ : Type*}

structure TargetModel where
  numLayers : Nat
  paths : Model
  consistent : ∀ layers, findLayers paths = some layers → layers.length = numLayers

/-- Setting the auxiliary layers and then `maybe_enable_aifd`, as the model runner does. -/
def load (α ρ : Type*) (model : TargetModel) (hfConfig : HfConfig) :
    Outcome AifdError (Engine α ρ) :=
  maybeEnableAifd model.paths hfConfig (.unhooked hfConfig.eagleAuxHiddenStateLayerIds)

def AifdConfig.candidates (cfg : AifdConfig) : List Int :=
  (cfg.candidateLayers.getD []).insertionSort (· ≤ ·)

def AifdConfig.parsedGranularity (cfg : AifdConfig) : Granularity :=
  if (cfg.granularity.getD "sample").toLower = "token" then .token else .sample

/-- The conditions under which `enable_aifd` keeps the selection switched on. -/
def Accepts (model : TargetModel) (cfg : AifdConfig) : Prop :=
  (findLayers model.paths).isSome ∧ ∀ c ∈ cfg.candidates, InRange model.numLayers c

/-- Loading with a candidate list either switches the selection on for exactly those
candidates, or leaves it off. -/
theorem load_cases {model : TargetModel} {hfConfig : HfConfig} {cfg : AifdConfig}
    (configured : aifdConfigFrom hfConfig = some cfg) {e : Engine α ρ}
    (loaded : load α ρ model hfConfig = .done e) :
    e.auxHiddenStateLayers = hfConfig.eagleAuxHiddenStateLayerIds ∧ Ready e.state ∧
      (Accepts model cfg ∧ Live e model.numLayers ∧ e.state.candidates = cfg.candidates ∧
          e.state.granularity = cfg.parsedGranularity ∨
        ¬ Accepts model cfg ∧ e.state.enabled = false) := by
  obtain ⟨_, nonempty⟩ := aifdConfigFrom_eq_some.mp configured
  have filled : cfg.candidates ≠ [] := by
    intro none
    have size := List.length_insertionSort (· ≤ ·) (cfg.candidateLayers.getD [])
    rw [AifdConfig.candidates] at none
    rw [none] at size
    exact nonempty (List.eq_nil_of_length_eq_zero size.symm)
  have sorted : cfg.candidates.Pairwise (· ≤ ·) := List.pairwise_insertionSort (· ≤ ·) _
  unfold load maybeEnableAifd at loaded
  rw [configured] at loaded
  simp only [enableAifd, if_neg nonempty] at loaded
  cases found : findLayers model.paths with
  | none =>
    rw [found] at loaded
    cases loaded
    refine ⟨rfl, ⟨rfl, rfl, rfl, fun c rows held => ?_⟩, .inr ⟨?_, rfl⟩⟩
    · simp [Engine.unhooked] at held
    · simp [Accepts, found]
  | some layers =>
    rw [found] at loaded
    have depth := model.consistent layers found
    rcases registerHooks_done loaded with ⟨inside, rfl⟩ | ⟨⟨bad, member, outside⟩, before, _, rfl⟩
    · refine ⟨rfl, ⟨rfl, rfl, rfl, fun c rows held => ?_⟩, .inl ⟨⟨?_, ?_⟩, ?_, rfl, rfl⟩⟩
      · simp [Engine.unhooked] at held
      · simp [found]
      · exact depth ▸ inside
      · exact ⟨rfl, filled, sorted, depth ▸ inside, depth, rfl, rfl, rfl⟩
    · refine ⟨rfl, ⟨rfl, rfl, rfl, fun c rows held => ?_⟩, .inr ⟨?_, rfl⟩⟩
      · simp [Engine.unhooked] at held
      · exact fun accepts => outside (depth ▸ accepts.2 bad member)

variable [Field α] [LinearOrder α] [Add ρ]

/-- One forward as it happened: complete, or cut after a number of calls. -/
structure Attempt (α ρ : Type*) where
  forward : Forward α ρ
  cut : Option Nat

def Attempt.calls (a : Attempt α ρ) (attnHooks : List Int) (numLayers : Nat) :
    List (ModelCall α ρ) :=
  match a.cut with
  | none => forwardCalls attnHooks a.forward numLayers
  | some k => (forwardCalls attnHooks a.forward numLayers).take k

def attempt (e : Engine α ρ) (numLayers : Nat) (a : Attempt α ρ) : Outcome AifdError (Pass α ρ) :=
  execute (callStep e) (a.calls e.attnHooks numLayers) ⟨e.state, []⟩

/-- The state is a module-level singleton: each forward starts where the last one stopped. -/
def serve (numLayers : Nat) : List (Attempt α ρ) → Engine α ρ → Engine α ρ
  | [], e => e
  | a :: history, e =>
    serve numLayers history { e with state := (attempt e numLayers a).state.state }

def Forward.Emits (f : Forward α ρ) (candidates : List Int) (numLayers : Nat) : Prop :=
  (numLayers : Int) ∉ candidates ∧ f.Segmented candidates numLayers ∧ f.Uniform candidates

/-- No attention hook that ran stored an entropy. -/
def Attempt.Silent (a : Attempt α ρ) (attnHooks : List Int) (numLayers : Nat) : Prop :=
  ∀ auxId call, ModelCall.attention auxId call ∈ a.calls attnHooks numLayers → measure call = none

/-- Forwards after which the next one starts clean. -/
def Attempt.Harmless (a : Attempt α ρ) (candidates : List Int) (numLayers : Nat) : Prop :=
  a.cut = none ∧ a.forward.Emits candidates numLayers ∨ a.Silent candidates numLayers

/-- Calls that measure nothing keep the state clean. -/
theorem callStep_ready (e : Engine α ρ) {p : Pass α ρ} {call : ModelCall α ρ}
    (silent : ∀ auxId attn, call = .attention auxId attn → measure attn = none)
    (ready : Ready p.state) : Ready (callStep e p call).state.state ∧
      SameSetup p.state (callStep e p call).state.state := by
  cases call with
  | attention auxId attn =>
    simp only [callStep, attnHook_none (silent auxId attn rfl)]
    exact ⟨ready, .refl _⟩
  | layer layerIdx hiddenStates residual =>
    simp only [callStep, maybeAddHiddenState]
    split
    · split
      · exact note_ready (p := { p with auxList := _ }) ready
      · exact note_ready ready
    · split <;> exact ⟨ready, .refl _⟩

theorem attempt_silent {e : Engine α ρ} {N : Nat} {a : Attempt α ρ}
    (silent : a.Silent e.attnHooks N) (ready : Ready e.state) :
    Ready (attempt e N a).state.state ∧ SameSetup e.state (attempt e N a).state.state := by
  refine execute_invariant (fun p : Pass α ρ => Ready p.state ∧ SameSetup e.state p.state) _ _
    (fun call member p valid => ?_) ⟨ready, .refl _⟩
  have kept := callStep_ready e (fun auxId attn same => silent auxId attn (same ▸ member)) valid.1
  exact ⟨kept.1, valid.2.trans kept.2⟩

theorem attempt_harmless [Zero ρ] {e : Engine α ρ} {N : Nat} (live : Live e N)
    (ready : Ready e.state) {a : Attempt α ρ} (harmless : a.Harmless e.state.candidates N) :
    Ready (attempt e N a).state.state ∧ SameSetup e.state (attempt e N a).state.state := by
  rcases harmless with ⟨whole, last, segmented, uniform⟩ | silent
  · have complete : attempt e N a = runForward e N a.forward := by
      simp only [attempt, Attempt.calls, whole, runForward]
    rw [complete, runForward_emits live ready a.forward last segmented uniform]
    exact ⟨ready_reset _, sameSetup_reset _⟩
  · exact attempt_silent (live.hooks ▸ silent) ready

/-- A history of harmless forwards leaves an engine as good as freshly loaded. -/
theorem serve_harmless [Zero ρ] {N : Nat} (history : List (Attempt α ρ)) {e : Engine α ρ}
    (live : Live e N) (ready : Ready e.state)
    (harmless : ∀ a ∈ history, a.Harmless e.state.candidates N) :
    ∃ s, serve N history e = { e with state := s } ∧ Ready s ∧ SameSetup e.state s := by
  induction history generalizing e with
  | nil => exact ⟨e.state, rfl, ready, .refl _⟩
  | cons a history ih =>
    obtain ⟨clean, same⟩ := attempt_harmless live ready (harmless a (by simp))
    obtain ⟨s, reached, clean', same'⟩ := ih (live.withState same) clean fun b member =>
      same.candidates ▸ harmless b (List.mem_cons_of_mem _ member)
    exact ⟨s, reached, clean', same.trans same'⟩

/-! While the selection is switched off, nothing touches the state. -/

theorem callStep_disabled (e : Engine α ρ) {p : Pass α ρ} (disabled : p.state.enabled = false)
    (call : ModelCall α ρ) : ∃ auxList, callStep e p call = .done { p with auxList } := by
  cases call with
  | attention auxId attn => exact ⟨p.auxList, by simp [callStep, attnHook_disabled disabled]⟩
  | layer layerIdx hiddenStates residual =>
    simp only [callStep, maybeAddHiddenState]
    by_cases aux : layerIdx ∈ e.auxHiddenStateLayers
    · simp only [aux, if_true]
      split
      · exact ⟨_, note_disabled disabled⟩
      · exact ⟨_, rfl⟩
    · simp only [aux, if_false]
      split
      · exact ⟨_, note_disabled disabled⟩
      · exact ⟨_, rfl⟩

theorem execute_disabled (e : Engine α ρ) (calls : List (ModelCall α ρ)) {p : Pass α ρ}
    (disabled : p.state.enabled = false) :
    ∃ auxList, execute (callStep e) calls p = .done { p with auxList } := by
  induction calls generalizing p with
  | nil => exact ⟨p.auxList, rfl⟩
  | cons call calls ih =>
    obtain ⟨auxList, step⟩ := callStep_disabled e disabled call
    rw [execute, step, Outcome.andThen_done]
    exact ih (p := { p with auxList }) disabled

theorem serve_disabled {N : Nat} (history : List (Attempt α ρ)) {e : Engine α ρ}
    (disabled : e.state.enabled = false) : serve N history e = e := by
  induction history with
  | nil => rfl
  | cons a history ih =>
    obtain ⟨auxList, done⟩ := execute_disabled e (a.calls e.attnHooks N) (p := ⟨e.state, []⟩) disabled
    rw [serve, attempt, done]
    exact ih

/-- A switched-off engine returns the auxiliary outputs and nothing else. -/
theorem runForward_disabled {e : Engine α ρ} {N : Nat} (disabled : e.state.enabled = false)
    (f : Forward α ρ) :
    runForward e N f = .done ⟨e.state, f.auxOutputs e.auxHiddenStateLayers N⟩ := by
  have report (layerIdx : Nat) (auxList : List (List ρ)) :
      callStep e ⟨e.state, auxList⟩
          (.layer layerIdx (f.layerOut layerIdx).1 (f.layerOut layerIdx).2) =
        .done ⟨e.state, auxList ++
          if (layerIdx : Int) ∈ e.auxHiddenStateLayers then [f.value layerIdx] else []⟩ := by
    simp only [callStep, maybeAddHiddenState]
    split
    · rw [note_disabled (by split <;> exact disabled)]
      split <;> simp [Forward.value]
    · split <;> simp [Forward.value]
  have hooks (ids : List Int) (attn : AttnCall α) (p : Pass α ρ) (same : p.state = e.state) :
      execute (callStep e) (ids.map (.attention · attn)) p = .done p := by
    induction ids with
    | nil => rfl
    | cons auxId ids ih =>
      simp only [List.map_cons, execute, callStep, same, attnHook_disabled disabled]
      rw [← same]
      exact ih
  unfold runForward
  induction N with
  | zero =>
    simp only [forwardCalls, List.range_zero, List.flatMap_nil, execute]
    rw [show (0 : Int) = ((0 : Nat) : Int) from rfl, report]
    by_cases aux : (0 : Int) ∈ e.auxHiddenStateLayers <;> simp [Forward.auxOutputs, aux]
  | succ N ih =>
    rw [forwardCalls_succ, execute_append, ih, Outcome.andThen_done, layerCalls, execute_append,
      hooks _ _ _ rfl, Outcome.andThen_done, execute, report, Forward.auxOutputs_succ]
    rfl

end DreamAifd
