import DreamAifd.CausalBatch
import DreamAifd.ScriptedForward

/-! Two steps that share a request. Its rows in the channel are the same in both when both
count decode tokens or neither does; a short request in front of it makes the difference. -/
namespace DreamAifd

open Segments

variable {α ρ : Type*}

/-- Rows that a forward leaves in the tensor behind the auxiliary outputs, if there is one,
for the tokens of a window. -/
def aifdRows [Field α] [LinearOrder α] [Add ρ] (e : Engine α ρ) (numLayers : Nat) (f : Forward α ρ)
    (offset n : Nat) : Except AifdError (Option (List ρ)) :=
  match runForward e numLayers f with
  | .raised err _ => .error err
  | .done p => .ok ((p.auxList[(f.auxOutputs e.auxHiddenStateLayers numLayers).length]?).map
      (slice offset n))

variable [Field α] [LinearOrder α] [Add ρ] [Zero ρ] {layers : Nat → AttnModule α}

variable {operator : Operator α} {threshold : Nat} {reqs : List (Request layers ρ)}

section Batch

variable {outputs : ∀ idx, LayerOutputs (layers idx)}

/-- A live engine leaves a request the rows its own tokens select, or the fallback's. -/
theorem aifdRows_batch {e : Engine α ρ} {N : Nat} (live : Live e N) (ready : Ready e.state)
    (computes : ∀ idx, Computes (operator _ _ _) (outputs idx)) (multiple : 1 ≤ threshold) {k : Nat}
    (hk : k < reqs.length) :
    aifdRows e N (batchForward operator threshold reqs) (start (lengths reqs) k) reqs[k].length =
      .ok (if (N : Int) ∈ e.state.candidates then none else
        some (reqs[k].aifdRows e.state.candidates e.state.granularity
          (fun idx => reqs[k].entropyOf idx (outputs idx))
          (PurePrefill threshold reqs ∧ e.state.candidates.Nodup))) := by
  have some_request : reqs ≠ [] := List.length_pos_iff.mp (by omega)
  by_cases last : (N : Int) ∈ e.state.candidates
  · rw [aifdRows, runForward_stash live _ ready.seqLengths last
      (segmented_batchForward computes multiple some_request _ N)]
    simp [last]
  · rw [aifdRows, runForward_batch live ready last computes multiple some_request]
    simp only [List.getElem?_concat_length, Option.map_some, last, if_false]
    rw [slice_channel computes multiple live.nonempty live.inRange e.state.granularity hk]

omit [Zero ρ] in
theorem aifdRows_disabled {e : Engine α ρ} {N : Nat} (disabled : e.state.enabled = false)
    (f : Forward α ρ) (offset n : Nat) : aifdRows e N f offset n = .ok none := by
  rw [aifdRows, runForward_disabled disabled]
  simp

end Batch

noncomputable def evenLayers : Nat → AttnModule ℝ := fun _ => scriptedLayer ℝ 1

noncomputable def evenRequest (n : Nat) (positive : 0 < n) : Request evenLayers Nat :=
  Prompt.window (fun _ => evenPosition evenLayers id) 0 n positive

theorem computes_evenLayers (idx : Nat) : ComputesAttention (causalOperator
    (evenLayers idx).numHeads (evenLayers idx).numKvHeads (evenLayers idx).headSize) :=
  computes_causalOperator Nat.one_pos

noncomputable def evenEngine : Engine ℝ Nat :=
  (load ℝ Nat (plainModel 4) (plainConfig [] [1, 2, 3])).state

theorem evenEngine_live : Live evenEngine 4 ∧ Ready evenEngine.state ∧
    evenEngine.state.candidates = [1, 2, 3] ∧ evenEngine.state.granularity = .sample := by
  have configured : aifdConfigFrom (plainConfig [] [1, 2, 3]) = some ⟨some [1, 2, 3], none⟩ := rfl
  have loaded : load ℝ Nat (plainModel 4) (plainConfig [] [1, 2, 3]) = .done evenEngine := rfl
  rcases load_cases configured loaded with
    ⟨_, ready, ⟨_, live, listed, granularity⟩ | ⟨declined, _⟩⟩
  · exact ⟨live, ready, listed.trans (by decide), granularity.trans (by decide +kernel)⟩
  · exact absurd (show Accepts (plainModel 4) ⟨some [1, 2, 3], none⟩ from ⟨rfl, by decide⟩) declined

/-- Rows of an even request of three tokens among other even requests. -/
theorem aifdRows_evenRequest (reqs : List (Request evenLayers Nat)) {k : Nat} (hk : k < reqs.length)
    (even : reqs[k] = evenRequest 3 (by decide)) :
    aifdRows evenEngine 4 (batchForward causalOperator 2 reqs) (start (lengths reqs) k) 3 =
      .ok (some (if PurePrefill 2 reqs then [2, 2, 2] else [3, 3, 3])) := by
  obtain ⟨live, ready, listed, sample⟩ := evenEngine_live
  have exact := computes_evenLayers
  choose kvHead computes using exact
  have rows := aifdRows_batch live ready computes (show 1 ≤ 2 by decide) hk
  rw [even, listed, sample, if_neg (by decide), Request.aifdRows_sample] at rows
  refine Eq.trans rows ?_
  by_cases pure : PurePrefill 2 reqs
  · rw [sampleLayer_even _ (fun _ => Nat.one_pos) (fun _ _ _ => rfl) (by decide) ⟨pure, by decide⟩,
      if_pos pure]
    rfl
  · rw [Request.sampleLayer, if_neg fun both => pure both.1, if_neg pure]
    rfl

end DreamAifd
