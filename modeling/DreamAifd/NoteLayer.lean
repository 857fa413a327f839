import DreamAifd.AttnHook
import DreamAifd.SelectLayers

/-! The injection point called once for every layer: stash candidate outputs, and after the
last layer append one selected channel to the auxiliary outputs. -/
namespace DreamAifd

open Trace

variable {α ρ : Type*}

/-- A forward in progress: the shared scratch state and the auxiliary outputs so far. -/
structure Pass (α ρ : Type*) where
  state : AifdState α ρ
  auxList : List (List ρ)

/-- Without a selection the output of the largest stashed layer stands in. -/
def appendFallback (p : Pass α ρ) (value : List ρ) : Pass α ρ :=
  { p with auxList := p.auxList ++ [p.state.hidden.last?.getD value] }

def Pass.reset (p : Pass α ρ) : Pass α ρ := { p with state := p.state.reset }

variable [Field α] [LinearOrder α]

/-- The emitting call. An exception of the selection leaves `emitted` set. -/
def emit (value : List ρ) (p : Pass α ρ) : Outcome AifdError (Pass α ρ) :=
  let p := { p with state := { p.state with emitted := true } }
  if value.length = 1 then .done (appendFallback p value).reset
  else if p.state.entropy.size = 0 ∨ p.state.hidden.size ≠ p.state.candidates.length then
    .done (appendFallback p value).reset
  else
    match selectLayers p.state p.state.keepBos with
    | .error e => .raised e p
    | .ok none => .done (appendFallback p value).reset
    | .ok (some chosen) =>
      match gatherPerRequest p.state chosen with
      | .error e => .raised e p
      | .ok rows => .done { p with auxList := p.auxList ++ [rows] : Pass α ρ }.reset

def noteLayerAndMaybeEmit (layerIdx : Int) (value : List ρ) (p : Pass α ρ) :
    Outcome AifdError (Pass α ρ) :=
  let s := p.state
  if ¬ s.enabled ∨ s.candidates = [] then .done p
  else if layerIdx ∈ s.candidates then
    .done { p with state := { s with hidden := s.hidden.set layerIdx value } }
  else if s.emitted ∨ s.numLayers = 0 ∨ layerIdx < s.numLayers then .done p
  else emit value p

/-- Whatever keeps the selection from starting leads to the fallback channel. -/
theorem emit_fallback {value : List ρ} {p : Pass α ρ}
    (incomplete : value.length = 1 ∨ p.state.entropy.size = 0 ∨
      p.state.hidden.size ≠ p.state.candidates.length) :
    emit value p = .done (appendFallback p value).reset := by
  unfold emit
  dsimp only
  split
  · rfl
  next many => rw [if_pos (incomplete.resolve_left many)]; rfl

theorem emit_selected {value : List ρ} {p : Pass α ρ} {chosen : List Int} {rows : List ρ}
    (many : value.length ≠ 1) (measured : p.state.entropy.size ≠ 0)
    (complete : p.state.hidden.size = p.state.candidates.length)
    (selected : selectLayers { p.state with emitted := true } p.state.keepBos = .ok (some chosen))
    (gathered : gatherPerRequest { p.state with emitted := true } chosen = .ok rows) :
    emit value p = .done ⟨p.state.reset, p.auxList ++ [rows]⟩ := by
  simp only [emit, many, if_false, measured, complete, ne_eq, not_true_eq_false, or_self, selected,
    gathered]
  rfl

theorem emit_raised {value : List ρ} {p : Pass α ρ} {e : AifdError}
    (many : value.length ≠ 1) (measured : p.state.entropy.size ≠ 0)
    (complete : p.state.hidden.size = p.state.candidates.length)
    (raises : selectLayers { p.state with emitted := true } p.state.keepBos = .error e) :
    emit value p = .raised e { p with state := { p.state with emitted := true } } := by
  simp only [emit, many, if_false, measured, complete, ne_eq, not_true_eq_false, or_self, raises]

/-- A layer that is neither a candidate nor the last one leaves the state alone. -/
theorem note_passed {layerIdx : Nat} {value : List ρ} {p : Pass α ρ}
    (absent : (layerIdx : Int) ∉ p.state.candidates) (early : layerIdx < p.state.numLayers) :
    noteLayerAndMaybeEmit layerIdx value p = .done p := by
  simp [noteLayerAndMaybeEmit, absent, early]

theorem note_candidate {layerIdx : Nat} {value : List ρ} {p : Pass α ρ}
    (enabled : p.state.enabled) (member : (layerIdx : Int) ∈ p.state.candidates) :
    noteLayerAndMaybeEmit layerIdx value p =
      .done { p with state := { p.state with hidden := p.state.hidden.set layerIdx value } } := by
  have nonempty : p.state.candidates ≠ [] := List.ne_nil_of_mem member
  simp [noteLayerAndMaybeEmit, enabled, member, nonempty]

theorem note_last {value : List ρ} {p : Pass α ρ} {N : Nat}
    (enabled : p.state.enabled) (nonempty : p.state.candidates ≠ [])
    (absent : (N : Int) ∉ p.state.candidates) (last : p.state.numLayers = N) (positive : 0 < N)
    (fresh : p.state.emitted = false) :
    noteLayerAndMaybeEmit N value p = emit value p := by
  simp [noteLayerAndMaybeEmit, enabled, nonempty, absent, last, fresh, positive.ne']

@[simp] theorem note_disabled {layerIdx : Int} {value : List ρ} {p : Pass α ρ}
    (disabled : p.state.enabled = false) : noteLayerAndMaybeEmit layerIdx value p = .done p := by
  simp [noteLayerAndMaybeEmit, disabled]

/-- Output of a layer as later layers see it: hidden states plus residual stream. -/
def layerValue [Add ρ] (hiddenStates : List ρ) (residual : Option (List ρ)) : List ρ :=
  match residual with
  | some r => List.zipWith (· + ·) hiddenStates r
  | none => hiddenStates

def maybeAddHiddenState [Add ρ] (auxHiddenStateLayers : List Int) (aifdHook : Bool) (layerIdx : Int)
    (hiddenStates : List ρ) (residual : Option (List ρ)) (p : Pass α ρ) :
    Outcome AifdError (Pass α ρ) :=
  let value := layerValue hiddenStates residual
  let p := if layerIdx ∈ auxHiddenStateLayers then
    { p with auxList := p.auxList ++ [value] } else p
  if aifdHook then noteLayerAndMaybeEmit layerIdx value p else .done p

end DreamAifd
