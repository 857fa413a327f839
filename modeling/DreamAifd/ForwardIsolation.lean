import DreamAifd.ScriptedForward

/-! Independence of a forward from the forwards before it. The scratch state is a singleton
that only a successful emission resets, so what an aborted forward measured is still there
when the next one starts. -/
namespace DreamAifd

open Trace

variable {α ρ : Type*}

/-- Every candidate's rows are overwritten, so stale ones do not matter. -/
theorem stateAfter_reset [Field α] [Add ρ] {s : AifdState α ρ} (ready : Ready s) {N : Nat}
    (inRange : ∀ c ∈ s.candidates, InRange N c) (f : Forward α ρ) :
    f.stateAfter s N = f.stateAfter s.reset N := by
  have left := sameSetup_stateAfter f s N
  have right := sameSetup_stateAfter f s.reset N
  have entropy : (f.stateAfter s N).entropy = (f.stateAfter s.reset N).entropy := by
    ext c : 1
    rw [stateAfter_entropy f ready.entropy, stateAfter_entropy f rfl]
    rfl
  have hidden : (f.stateAfter s N).hidden = (f.stateAfter s.reset N).hidden := by
    ext c : 1
    rw [stateAfter_hidden, stateAfter_hidden]
    by_cases member : c ∈ s.candidates
    · rw [if_pos ⟨member, inRange c member⟩, if_pos ⟨member, inRange c member⟩]
    · have absent : s.hidden.get? c = none :=
        Option.eq_none_iff_forall_ne_some.mpr fun rows held => member (ready.hidden c rows held)
      rw [if_neg fun h => member h.1, if_neg fun h => member h.1, absent]
      exact (Dict.get?_empty c).symm
  have seqLengths : (f.stateAfter s N).seqLengths = (f.stateAfter s.reset N).seqLengths := by
    rw [stateAfter_seqLengths f ready.seqLengths, stateAfter_seqLengths f rfl]
    rfl
  have emitted : (f.stateAfter s N).emitted = (f.stateAfter s.reset N).emitted := by
    rw [stateAfter_emitted, stateAfter_emitted, ready.emitted]
    rfl
  generalize f.stateAfter s N = a at *
  generalize f.stateAfter s.reset N = b at *
  cases a
  cases b
  simp only [AifdState.mk.injEq]
  exact ⟨left.candidates.trans right.candidates.symm, entropy, hidden, seqLengths,
    left.enabled.trans right.enabled.symm, left.keepBos.trans right.keepBos.symm,
    left.granularity.trans right.granularity.symm, emitted,
    left.numLayers.trans right.numLayers.symm⟩

variable [Field α] [LinearOrder α] [Add ρ]

/-- From a clean state a forward returns what it returns from a reset one. -/
theorem runForward_reset {e : Engine α ρ} {N : Nat} (live : Live e N) (ready : Ready e.state)
    (f : Forward α ρ) : auxOutcome (runForward e N f) =
      auxOutcome (runForward e.fresh N f) := by
  have live' : Live e.fresh N := live.withState (sameSetup_reset e.state)
  have after := stateAfter_reset ready live.inRange f
  by_cases segmented : f.Segmented e.state.candidates N
  · by_cases last : (N : Int) ∈ e.state.candidates
    · rw [runForward_stash live f ready.seqLengths last segmented,
        runForward_stash live' f rfl last segmented]
      rfl
    · rw [runForward_emit live f ready.seqLengths ready.emitted last segmented,
        runForward_emit live' f rfl rfl last segmented, after]
      rfl
  · obtain ⟨m, found, mismatch⟩ : ∃ m, f.firstMeasured e.state.candidates N = some m ∧
        m.seqLengths.sum ≠ f.numTokens := by
      simpa [Forward.Segmented] using segmented
    obtain ⟨p, raised⟩ := runForward_segmentSum live f ready.seqLengths found mismatch
    obtain ⟨q, raised'⟩ := runForward_segmentSum live' f rfl found mismatch
    rw [raised, raised']
    rfl

variable [Zero ρ]

/-- After any history of forwards that either emitted or were cut before a hook measured, a
forward gives what it gives from a freshly reset state. -/
theorem forward_isolation {hfConfig : HfConfig} {cfg : AifdConfig}
    (configured : aifdConfigFrom hfConfig = some cfg) {model : TargetModel} {e : Engine α ρ}
    (loaded : load α ρ model hfConfig = .done e) {history : List (Attempt α ρ)}
    (harmless : ∀ a ∈ history, a.Harmless cfg.candidates model.numLayers) (f : Forward α ρ) :
    auxOutcome (runForward (serve model.numLayers history e) model.numLayers f) =
      auxOutcome (runForward e.fresh model.numLayers f) := by
  rcases load_cases configured loaded with
    ⟨_, ready, ⟨_, live, same, _⟩ | ⟨_, disabled⟩⟩
  · obtain ⟨s, reached, clean, setup⟩ := serve_harmless history live ready (same ▸ harmless)
    have isolated := runForward_reset (live.withState setup) clean f
    rw [reached, isolated, Engine.fresh, Engine.fresh, reset_eq_of_sameSetup setup]
  · have disabled' : e.fresh.state.enabled = false := disabled
    rw [serve_disabled history disabled, runForward_disabled disabled, runForward_disabled disabled']
    rfl

theorem forward_isolation_cutEarly :
    auxOutcome (runForward (serve 4 [⟨rampForward 2, some 1⟩] (plainEngine 4 [1] [1, 2, 3])) 4
        (rampForward 3)) =
      auxOutcome (runForward (plainEngine 4 [1] [1, 2, 3]).fresh 4 (rampForward 3)) :=
  have configured : aifdConfigFrom (plainConfig [1] [1, 2, 3]) = some ⟨some [1, 2, 3], none⟩ := rfl
  have loaded : load ℚ ℚ (plainModel 4) (plainConfig [1] [1, 2, 3]) =
    .done (plainEngine 4 [1] [1, 2, 3]) := rfl
  forward_isolation configured loaded (by
    intro a member
    rw [List.mem_singleton.mp member]
    right
    intro auxId call present
    simp [Attempt.calls, forwardCalls] at present) _

/-- A forward of two tokens is cut after two layers. The next one, of three tokens, finds its
segmentation taken, fails to select, and appends the fallback instead of the chosen layer. -/
theorem forward_isolation_abortedForward :
    ¬ ∀ (model : TargetModel) (hfConfig : HfConfig) (cfg : AifdConfig) (e : Engine ℚ ℚ)
      (history : List (Attempt ℚ ℚ)) (f : Forward ℚ ℚ), aifdConfigFrom hfConfig = some cfg →
      load ℚ ℚ model hfConfig = .done e →
      auxOutcome (runForward (serve model.numLayers history e) model.numLayers f) =
        auxOutcome (runForward e.fresh model.numLayers f) := by
  intro claim
  have same : auxOutcome (runForward (serve 4 [⟨rampForward 2, some 5⟩]
        (plainEngine 4 [1] [1, 2, 3])) 4 (rampForward 3)) =
      auxOutcome (runForward (plainEngine 4 [1] [1, 2, 3]).fresh 4 (rampForward 3)) :=
    claim (plainModel 4) (plainConfig [1] [1, 2, 3]) _ _ _ _ rfl rfl
  have stale : auxOutcome (runForward (serve 4 [⟨rampForward 2, some 5⟩]
      (plainEngine 4 [1] [1, 2, 3])) 4 (rampForward 3)) = .ok [[1, 1, 1], [3, 3, 3]] := by
    decide +kernel
  have fresh : auxOutcome (runForward (plainEngine 4 [1] [1, 2, 3]).fresh 4 (rampForward 3)) =
      .ok [[1, 1, 1], [2, 2, 2]] := by decide +kernel
  rw [stale, fresh] at same
  exact absurd same (by decide +kernel)

end DreamAifd
