import DreamAifd.NoteLayer

/-! Whole forwards of the target model. Layer `idx` runs its attention, whose hooks fire,
and then reports its output under id `idx + 1`; id 0 reports the embedding. -/
namespace DreamAifd

open Trace

variable {α ρ : Type*}

/-- What one forward brings to the hooks, all of it over the same number of tokens. -/
structure Forward (α ρ : Type*) where
  numTokens : Nat
  attn : Nat → AttnCall α
  /-- Hidden states and residual reported for each layer id. -/
  layerOut : Nat → List ρ × Option (List ρ)
  tokens : ∀ idx n, (attn idx).count = some n → n = numTokens
  hiddenRows : ∀ layerIdx, (layerOut layerIdx).1.length = numTokens
  residualRows : ∀ layerIdx r, (layerOut layerIdx).2 = some r → r.length = numTokens

inductive ModelCall (α ρ : Type*) where
  | attention (auxId : Int) (call : AttnCall α)
  | layer (layerIdx : Int) (hiddenStates : List ρ) (residual : Option (List ρ))

def hooksOn (attnHooks : List Int) (idx : Nat) : List Int :=
  attnHooks.filter fun auxId => auxId - 1 = idx

def layerCalls (attnHooks : List Int) (f : Forward α ρ) (idx : Nat) : List (ModelCall α ρ) :=
  (hooksOn attnHooks idx).map (.attention · (f.attn idx)) ++
    [.layer (idx + 1 : Nat) (f.layerOut (idx + 1)).1 (f.layerOut (idx + 1)).2]

def forwardCalls (attnHooks : List Int) (f : Forward α ρ) (numLayers : Nat) :
    List (ModelCall α ρ) :=
  .layer 0 (f.layerOut 0).1 (f.layerOut 0).2 ::
    (List.range numLayers).flatMap (layerCalls attnHooks f)

theorem forwardCalls_succ (attnHooks : List Int) (f : Forward α ρ) (k : Nat) :
    forwardCalls attnHooks f (k + 1) =
      forwardCalls attnHooks f k ++ layerCalls attnHooks f k := by
  simp [forwardCalls, List.range_succ]

theorem hooksOn_eq (attnHooks : List Int) (idx : Nat) :
    hooksOn attnHooks idx =
      List.replicate (attnHooks.count ((idx + 1 : Nat) : Int)) ((idx + 1 : Nat) : Int) := by
  rw [← List.filter_eq]
  exact List.filter_congr fun auxId _ => by simp; omega

namespace Forward

section Value

variable [Add ρ]

def value (f : Forward α ρ) (layerIdx : Nat) : List ρ :=
  layerValue (f.layerOut layerIdx).1 (f.layerOut layerIdx).2

theorem length_value (f : Forward α ρ) (layerIdx : Nat) :
    (f.value layerIdx).length = f.numTokens := by
  unfold value layerValue
  split
  next r given => simp [f.hiddenRows, f.residualRows layerIdx r given]
  next => exact f.hiddenRows layerIdx

/-- Auxiliary outputs of the layer ids up to `k`, in ascending order. -/
def auxOutputs (f : Forward α ρ) (auxHiddenStateLayers : List Int) (k : Nat) : List (List ρ) :=
  ((List.range (k + 1)).filter fun layerIdx =>
    ((layerIdx : Nat) : Int) ∈ auxHiddenStateLayers).map f.value

theorem auxOutputs_succ (f : Forward α ρ) (auxHiddenStateLayers : List Int) (k : Nat) :
    f.auxOutputs auxHiddenStateLayers (k + 1) = f.auxOutputs auxHiddenStateLayers k ++
      if ((k + 1 : Nat) : Int) ∈ auxHiddenStateLayers then [f.value (k + 1)] else [] := by
  rw [auxOutputs, List.range_succ, List.filter_append, List.map_append]
  congr 1
  split <;> simp_all

end Value

section Measured

variable [Field α]

def measured (f : Forward α ρ) (auxId : Int) : Option (Measurement α) :=
  measure (f.attn (auxId.toNat - 1))

theorem measured_count {f : Forward α ρ} {auxId : Int} {m : Measurement α}
    (found : f.measured auxId = some m) :
    m.entropy.length = f.numTokens ∧ 1 < f.numTokens := by
  obtain ⟨count, many⟩ := measure_count found
  have same := f.tokens _ _ count
  exact ⟨same, same ▸ many⟩

/-- Measurement of the lowest of the first `k` layers that is a candidate and measures. -/
def firstMeasured (f : Forward α ρ) (candidates : List Int) (k : Nat) : Option (Measurement α) :=
  (List.range k).findSome? fun idx =>
    if ((idx + 1 : Nat) : Int) ∈ candidates then f.measured (idx + 1 : Nat) else none

theorem firstMeasured_succ (f : Forward α ρ) (candidates : List Int) (k : Nat) :
    f.firstMeasured candidates (k + 1) = (f.firstMeasured candidates k).or
      (if ((k + 1 : Nat) : Int) ∈ candidates then f.measured (k + 1 : Nat) else none) := by
  simp [firstMeasured, List.range_succ, List.findSome?_append]

/-- Behind the first measuring candidate there are only layers that measured nothing. -/
theorem firstMeasured_split {f : Forward α ρ} {candidates : List Int} {N : Nat}
    {m : Measurement α} (found : f.firstMeasured candidates N = some m) :
    ∃ k < N, f.firstMeasured candidates k = none ∧ ((k + 1 : Nat) : Int) ∈ candidates ∧
      f.measured (k + 1 : Nat) = some m := by
  induction N with
  | zero => simp [firstMeasured] at found
  | succ N ih =>
    rw [firstMeasured_succ] at found
    cases before : f.firstMeasured candidates N with
    | some other =>
      rw [before, Option.some_or] at found
      obtain ⟨k, bound, rest⟩ := ih (found ▸ before)
      exact ⟨k, by omega, rest⟩
    | none =>
      rw [before, Option.none_or] at found
      split at found
      next member => exact ⟨N, by omega, before, member, found⟩
      next => contradiction

theorem firstMeasured_of_le {f : Forward α ρ} {candidates : List Int} {k N : Nat}
    (bound : k ≤ N) {m : Measurement α} (found : f.firstMeasured candidates k = some m) :
    f.firstMeasured candidates N = some m := by
  induction N, bound using Nat.le_induction with
  | base => exact found
  | succ N _ ih => rw [firstMeasured_succ, ih, Option.some_or]

theorem firstMeasured_eq_none {f : Forward α ρ} {candidates : List Int} {N : Nat}
    (inRange : ∀ c ∈ candidates, InRange N c) :
    f.firstMeasured candidates N = none ↔ ∀ c ∈ candidates, f.measured c = none := by
  rw [firstMeasured, List.findSome?_eq_none_iff]
  constructor
  · intro silent c member
    obtain ⟨low, high⟩ := inRange c member
    have here := silent (c.toNat - 1) (List.mem_range.mpr (by omega))
    have same : ((c.toNat - 1 + 1 : Nat) : Int) = c := by omega
    rwa [same, if_pos member] at here
  · intro silent idx _
    split
    next member => exact silent _ member
    next => rfl

end Measured

end Forward

/-! What the calls of one layer do to the state while no exception occurs. -/

section LayerEffect

variable [Field α] [Add ρ]

def Forward.layerEffect (f : Forward α ρ) (layerIdx : Nat) (s : AifdState α ρ) : AifdState α ρ :=
  if (layerIdx : Int) ∈ s.candidates then
    let measured := s.absorb layerIdx (f.measured layerIdx)
    { measured with hidden := measured.hidden.set layerIdx (f.value layerIdx) }
  else s

def Forward.stateAfter (f : Forward α ρ) (s : AifdState α ρ) : Nat → AifdState α ρ
  | 0 => s
  | k + 1 => f.layerEffect (k + 1) (f.stateAfter s k)

end LayerEffect

section Execution

variable [Field α] [LinearOrder α] [Add ρ]

def callStep (e : Engine α ρ) (p : Pass α ρ) : ModelCall α ρ → Outcome AifdError (Pass α ρ)
  | .attention auxId call =>
    match attnHook auxId call p.state with
    | .done s => .done { p with state := s }
    | .raised err s => .raised err { p with state := s }
  | .layer layerIdx hiddenStates residual =>
    maybeAddHiddenState e.auxHiddenStateLayers e.aifdHook layerIdx hiddenStates residual p

def runForward (e : Engine α ρ) (numLayers : Nat) (f : Forward α ρ) :
    Outcome AifdError (Pass α ρ) :=
  execute (callStep e) (forwardCalls e.attnHooks f numLayers) ⟨e.state, []⟩

def auxOutcome {ε : Type*} : Outcome ε (Pass α ρ) → Except ε (List (List ρ))
  | .done p => .ok p.auxList
  | .raised err _ => .error err

theorem execute_hooks (e : Engine α ρ) {auxId : Int} {call : AttnCall α} {p : Pass α ρ}
    (enabled : p.state.enabled)
    (fits : p.state.seqLengths = none →
      ∀ m, measure call = some m → m.seqLengths.sum = m.entropy.length) (count : Nat) :
    execute (callStep e) (List.replicate (count + 1) (.attention auxId call)) p =
      .done { p with state := p.state.absorb auxId (measure call) } := by
  induction count with
  | zero => simp [execute, callStep, attnHook_absorb enabled fits]
  | succ count ih =>
    rw [List.replicate_succ', execute_append, ih]
    have enabled' := (sameSetup_absorb auxId (measure call) p.state).enabled.trans enabled
    have fits' : (p.state.absorb auxId (measure call)).seqLengths = none →
        ∀ m, measure call = some m → m.seqLengths.sum = m.entropy.length := by
      intro clear m found
      simp [found, AifdState.absorb] at clear
    simp [execute, callStep, attnHook_absorb enabled' fits', absorb_absorb]

end Execution

end DreamAifd
