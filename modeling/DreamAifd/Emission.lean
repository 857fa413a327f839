import DreamAifd.Forward

/-! What one whole forward does, from a state without scratch data of an earlier one: the
run theorems reduce it to the effect of its layers followed by the emitting call. -/
namespace DreamAifd

open Trace

variable {α ρ : Type*}

/-- An engine over `numLayers` decoder layers on which the selection was switched on. -/
structure Live (e : Engine α ρ) (numLayers : Nat) : Prop where
  enabled : e.state.enabled = true
  nonempty : e.state.candidates ≠ []
  sorted : e.state.candidates.Pairwise (· ≤ ·)
  inRange : ∀ c ∈ e.state.candidates, InRange numLayers c
  numLayers : e.state.numLayers = numLayers
  keepBos : e.state.keepBos = true
  hooks : e.attnHooks = e.state.candidates
  hooked : e.aifdHook = true

/-- No measurement of an earlier forward is left. Stale rows may be: every candidate's rows
are overwritten before they are read. -/
structure Ready (s : AifdState α ρ) : Prop where
  entropy : s.entropy = .empty
  seqLengths : s.seqLengths = none
  emitted : s.emitted = false
  hidden : ∀ c rows, s.hidden.get? c = some rows → c ∈ s.candidates

theorem ready_reset (s : AifdState α ρ) : Ready s.reset :=
  ⟨rfl, rfl, rfl, fun c rows held => by simp [AifdState.reset] at held⟩

theorem Live.positive {e : Engine α ρ} {N : Nat} (live : Live e N) : 0 < N := by
  obtain ⟨c, member⟩ := List.exists_mem_of_ne_nil _ live.nonempty
  obtain ⟨low, high⟩ := live.inRange c member
  omega

theorem Live.withState {e : Engine α ρ} {N : Nat} (live : Live e N) {s : AifdState α ρ}
    (same : SameSetup e.state s) : Live { e with state := s } N where
  enabled := same.enabled.trans live.enabled
  nonempty := same.candidates ▸ live.nonempty
  sorted := same.candidates ▸ live.sorted
  inRange := same.candidates ▸ live.inRange
  numLayers := same.numLayers.trans live.numLayers
  keepBos := same.keepBos.trans live.keepBos
  hooks := live.hooks.trans same.candidates.symm
  hooked := live.hooked

theorem passed_succ_iff {member : Prop} {c : Int} {k : Nat} (other : c ≠ ((k + 1 : Nat) : Int)) :
    (member ∧ 1 ≤ c ∧ c ≤ k) ↔ (member ∧ 1 ≤ c ∧ c ≤ ((k + 1 : Nat) : Int)) :=
  and_congr_right fun _ => by omega

section StateAfter

variable [Field α] [Add ρ]

theorem sameSetup_layerEffect (f : Forward α ρ) (layerIdx : Nat) (s : AifdState α ρ) :
    SameSetup s (f.layerEffect layerIdx s) := by
  unfold Forward.layerEffect
  split
  · exact (sameSetup_absorb layerIdx (f.measured layerIdx) s).trans ⟨rfl, rfl, rfl, rfl, rfl⟩
  · exact .refl s

theorem sameSetup_stateAfter (f : Forward α ρ) (s : AifdState α ρ) (k : Nat) :
    SameSetup s (f.stateAfter s k) := by
  induction k with
  | zero => exact .refl s
  | succ k ih => exact ih.trans (sameSetup_layerEffect f (k + 1) _)

theorem stateAfter_emitted (f : Forward α ρ) (s : AifdState α ρ) (k : Nat) :
    (f.stateAfter s k).emitted = s.emitted := by
  induction k with
  | zero => rfl
  | succ k ih =>
    rw [Forward.stateAfter, Forward.layerEffect]
    split
    · cases f.measured ((k + 1 : Nat) : Int) <;> exact ih
    · exact ih

theorem stateAfter_seqLengths (f : Forward α ρ) {s : AifdState α ρ} (clear : s.seqLengths = none)
    (k : Nat) : (f.stateAfter s k).seqLengths =
      (f.firstMeasured s.candidates k).map (·.seqLengths) := by
  induction k with
  | zero => simpa [Forward.stateAfter, Forward.firstMeasured] using clear
  | succ k ih =>
    rw [Forward.stateAfter, Forward.layerEffect, (sameSetup_stateAfter f s k).candidates,
      Forward.firstMeasured_succ]
    split
    next member =>
      cases f.measured ((k + 1 : Nat) : Int) with
      | none => simpa using ih
      | some m => simp only [AifdState.absorb, ih, Option.map_or]; rfl
    next => simpa using ih

/-- A candidate's entropy is there once its layer has passed, if its hook measured. -/
theorem stateAfter_entropy (f : Forward α ρ) {s : AifdState α ρ} (clear : s.entropy = .empty)
    (k : Nat) (c : Int) : (f.stateAfter s k).entropy.get? c =
      if c ∈ s.candidates ∧ 1 ≤ c ∧ c ≤ k then (f.measured c).map (·.entropy) else none := by
  induction k with
  | zero =>
    rw [Forward.stateAfter, clear, Dict.get?_empty, if_neg (by omega)]
  | succ k ih =>
    rw [Forward.stateAfter, Forward.layerEffect, (sameSetup_stateAfter f s k).candidates]
    split
    next member =>
      cases found : f.measured ((k + 1 : Nat) : Int) with
      | none =>
        rw [absorb_none, ih]
        by_cases here : c = ((k + 1 : Nat) : Int)
        · rw [here, found, if_neg (by omega)]
          simp
        · exact if_congr (passed_succ_iff here) rfl rfl
      | some m =>
        simp only [AifdState.absorb, Dict.get?_set]
        by_cases here : c = ((k + 1 : Nat) : Int)
        · rw [if_pos here, here, found, if_pos ⟨member, by omega, le_rfl⟩]; rfl
        · rw [if_neg here, ih]
          exact if_congr (passed_succ_iff here) rfl rfl
    next absent =>
      rw [ih]
      by_cases here : c = ((k + 1 : Nat) : Int)
      · rw [if_neg (by omega), if_neg (by rw [here]; tauto)]
      · exact if_congr (passed_succ_iff here) rfl rfl

theorem stateAfter_hidden (f : Forward α ρ) (s : AifdState α ρ) (k : Nat) (c : Int) :
    (f.stateAfter s k).hidden.get? c =
      if c ∈ s.candidates ∧ 1 ≤ c ∧ c ≤ k then some (f.value c.toNat) else s.hidden.get? c := by
  induction k with
  | zero => rw [Forward.stateAfter, if_neg (by omega)]
  | succ k ih =>
    rw [Forward.stateAfter, Forward.layerEffect, (sameSetup_stateAfter f s k).candidates]
    by_cases here : c = ((k + 1 : Nat) : Int)
    · split
      next member =>
        rw [Dict.get?_set, if_pos here, if_pos ⟨here ▸ member, by omega, by omega⟩, here,
          Int.toNat_natCast]
      next absent =>
        rw [ih, if_neg (by omega), if_neg (by rw [here]; tauto)]
    · split
      next member =>
        have kept : ((f.stateAfter s k).absorb (k + 1 : Nat) (f.measured (k + 1 : Nat))).hidden =
            (f.stateAfter s k).hidden := by cases f.measured ((k + 1 : Nat) : Int) <;> rfl
        rw [Dict.get?_set_ne _ _ here, kept, ih]
        exact if_congr (passed_succ_iff here) rfl rfl
      next => rw [ih]; exact if_congr (passed_succ_iff here) rfl rfl

end StateAfter

section Run

variable [Field α] [LinearOrder α]

/-- Without a measurement, whatever a layer reports leaves the state clean. -/
theorem note_ready {layerIdx : Int} {value : List ρ} {p : Pass α ρ} (ready : Ready p.state) :
    Ready (noteLayerAndMaybeEmit layerIdx value p).state.state ∧
      SameSetup p.state (noteLayerAndMaybeEmit layerIdx value p).state.state := by
  have unmeasured : p.state.entropy.size = 0 := by
    rw [ready.entropy, Dict.size, Dict.keys_empty, Finset.card_empty]
  unfold noteLayerAndMaybeEmit
  dsimp only
  split
  · exact ⟨ready, .refl _⟩
  · split
    next member =>
      refine ⟨⟨ready.entropy, ready.seqLengths, ready.emitted, fun c rows held => ?_⟩,
        ⟨rfl, rfl, rfl, rfl, rfl⟩⟩
      simp only [Outcome.state_done, Dict.get?_set] at held
      split at held
      next here => exact here ▸ member
      next => exact ready.hidden c rows held
    next =>
      split
      · exact ⟨ready, .refl _⟩
      · rw [emit_fallback (.inr (.inl unmeasured))]
        exact ⟨ready_reset _, sameSetup_reset _⟩

variable [Add ρ]

theorem callStep_layer {e : Engine α ρ} {N : Nat} (live : Live e N) (f : Forward α ρ)
    (layerIdx : Nat) (p : Pass α ρ) :
    callStep e p (.layer layerIdx (f.layerOut layerIdx).1 (f.layerOut layerIdx).2) =
      noteLayerAndMaybeEmit layerIdx (f.value layerIdx) { p with
        auxList := p.auxList ++
          if (layerIdx : Int) ∈ e.auxHiddenStateLayers then [f.value layerIdx] else [] } := by
  simp only [callStep, maybeAddHiddenState, live.hooked, if_true]
  change noteLayerAndMaybeEmit layerIdx (f.value layerIdx) _ = _
  congr 1
  split <;> simp [Forward.value]

/-- The hooks of one layer, and what they do while the segmentation is in order. -/
theorem execute_layerHooks {e : Engine α ρ} {N : Nat} (live : Live e N) (f : Forward α ρ)
    (idx : Nat) {p : Pass α ρ} (same : SameSetup e.state p.state)
    (fits : p.state.seqLengths = none → ((idx + 1 : Nat) : Int) ∈ e.state.candidates →
      ∀ m, f.measured (idx + 1 : Nat) = some m → m.seqLengths.sum = f.numTokens) :
    execute (callStep e) ((hooksOn e.attnHooks idx).map (.attention · (f.attn idx))) p =
      .done (if ((idx + 1 : Nat) : Int) ∈ e.state.candidates then
        { p with state := p.state.absorb (idx + 1 : Nat) (f.measured (idx + 1 : Nat)) } else p) := by
  rw [hooksOn_eq, live.hooks, List.map_replicate]
  split
  next member =>
    obtain ⟨count, many⟩ := Nat.exists_eq_add_of_le' (List.count_pos_iff.mpr member)
    rw [many]
    have call : f.measured (idx + 1 : Nat) = measure (f.attn idx) := by simp [Forward.measured]
    rw [call]
    refine execute_hooks e (same.enabled.trans live.enabled) (fun clear m found => ?_) count
    rw [← call] at found
    rw [fits clear member m found, (Forward.measured_count found).1]
  next absent => rw [List.count_eq_zero.mpr absent]; rfl

/-- The layers before the last one only stash, measure and collect auxiliary outputs. -/
theorem execute_prefix {e : Engine α ρ} {N : Nat} (live : Live e N) (f : Forward α ρ)
    (clear : e.state.seqLengths = none) {k : Nat}
    (early : k < N ∨ k = N ∧ (N : Int) ∈ e.state.candidates)
    (fits : ∀ m, f.firstMeasured e.state.candidates k = some m → m.seqLengths.sum = f.numTokens) :
    execute (callStep e) (forwardCalls e.attnHooks f k) ⟨e.state, []⟩ =
      .done ⟨f.stateAfter e.state k, f.auxOutputs e.auxHiddenStateLayers k⟩ := by
  induction k with
  | zero =>
    have absent : ((0 : Nat) : Int) ∉ e.state.candidates := fun member => by
      have := (live.inRange _ member).1
      omega
    have first := callStep_layer live f 0 ⟨e.state, []⟩
    rw [note_passed absent (live.numLayers ▸ live.positive)] at first
    simp only [forwardCalls, List.range_zero, List.flatMap_nil, execute]
    rw [show (0 : Int) = ((0 : Nat) : Int) from rfl, first]
    by_cases aux : (0 : Int) ∈ e.auxHiddenStateLayers <;>
      simp [Forward.auxOutputs, Forward.stateAfter, aux]
  | succ k ih =>
    have fits' : ∀ m, f.firstMeasured e.state.candidates k = some m →
        m.seqLengths.sum = f.numTokens :=
      fun m found => fits m (Forward.firstMeasured_of_le (Nat.le_succ k) found)
    have same := sameSetup_stateAfter f e.state k
    rw [forwardCalls_succ, execute_append, ih (.inl (by omega)) fits', Outcome.andThen_done,
      layerCalls, execute_append, execute_layerHooks live f k same, Outcome.andThen_done, execute,
      callStep_layer live, Forward.auxOutputs_succ, Forward.stateAfter, Forward.layerEffect,
      same.candidates]
    · split
      next member =>
        have same' := same.trans (sameSetup_absorb (k + 1 : Nat) (f.measured (k + 1 : Nat)) _)
        rw [note_candidate (same'.enabled.trans live.enabled) (by
          rw [same'.candidates]; exact member)]
        rfl
      next absent =>
        have before : k + 1 < N := by
          rcases early with less | ⟨rfl, last⟩
          · exact less
          · exact absurd last absent
        rw [note_passed (by rw [same.candidates]; exact absent) (by
          show _ < (f.stateAfter e.state k).numLayers
          rw [same.numLayers, live.numLayers]; exact before)]
        rfl
    · intro none member m found
      refine fits m ?_
      rw [stateAfter_seqLengths f clear, Option.map_eq_none_iff] at none
      rw [Forward.firstMeasured_succ, none, if_pos member, found, Option.none_or]

/-- With the last layer no candidate, its report is the emitting call. -/
theorem runForward_emit {e : Engine α ρ} {N : Nat} (live : Live e N) (f : Forward α ρ)
    (clear : e.state.seqLengths = none) (fresh : e.state.emitted = false)
    (last : (N : Int) ∉ e.state.candidates)
    (fits : ∀ m, f.firstMeasured e.state.candidates N = some m → m.seqLengths.sum = f.numTokens) :
    runForward e N f =
      emit (f.value N) ⟨f.stateAfter e.state N, f.auxOutputs e.auxHiddenStateLayers N⟩ := by
  obtain ⟨k, rfl⟩ := Nat.exists_eq_add_of_le' live.positive
  have same := sameSetup_stateAfter f e.state k
  have fits' : ∀ m, f.firstMeasured e.state.candidates k = some m →
      m.seqLengths.sum = f.numTokens :=
    fun m found => fits m (Forward.firstMeasured_of_le (Nat.le_succ k) found)
  rw [runForward, forwardCalls_succ, execute_append,
    execute_prefix live f clear (.inl (Nat.lt_succ_self k)) fits', Outcome.andThen_done, layerCalls,
    execute_append, execute_layerHooks live f k same (fun _ member => absurd member last),
    if_neg last, Outcome.andThen_done, execute, callStep_layer live, Forward.auxOutputs_succ,
    Forward.stateAfter, Forward.layerEffect, same.candidates, if_neg last,
    note_last (same.enabled.trans live.enabled) (by rw [same.candidates]; exact live.nonempty)
      (by rw [same.candidates]; exact last) (same.numLayers.trans live.numLayers)
      live.positive (by rw [stateAfter_emitted, fresh])]
  exact andThen_execute_nil _

/-- With the last layer a candidate, nothing is ever appended. -/
theorem runForward_stash {e : Engine α ρ} {N : Nat} (live : Live e N) (f : Forward α ρ)
    (clear : e.state.seqLengths = none) (last : (N : Int) ∈ e.state.candidates)
    (fits : ∀ m, f.firstMeasured e.state.candidates N = some m → m.seqLengths.sum = f.numTokens) :
    runForward e N f = .done ⟨f.stateAfter e.state N, f.auxOutputs e.auxHiddenStateLayers N⟩ :=
  execute_prefix live f clear (.inr ⟨rfl, last⟩) fits

/-- A first measurement whose segments do not add up ends the forward in the hook. -/
theorem runForward_segmentSum {e : Engine α ρ} {N : Nat} (live : Live e N) (f : Forward α ρ)
    (clear : e.state.seqLengths = none) {m : Measurement α}
    (found : f.firstMeasured e.state.candidates N = some m)
    (mismatch : m.seqLengths.sum ≠ f.numTokens) :
    ∃ p, runForward e N f = .raised (.segmentSum m.seqLengths f.numTokens) p := by
  obtain ⟨k, bound, before, member, here⟩ := Forward.firstMeasured_split found
  obtain ⟨rest, rfl⟩ := Nat.exists_eq_add_of_lt bound
  have split : forwardCalls e.attnHooks f (k + rest + 1) = forwardCalls e.attnHooks f k ++
      (layerCalls e.attnHooks f k ++
        (List.range rest).flatMap fun i => layerCalls e.attnHooks f (k + (i + 1))) := by
    simp [forwardCalls, Nat.add_assoc, List.range_add, List.range_succ_eq_map, List.flatMap_map]
  have call : f.measured (k + 1 : Nat) = measure (f.attn k) := by simp [Forward.measured]
  have raises : attnHook (k + 1 : Nat) (f.attn k) (f.stateAfter e.state k) =
      .raised (.segmentSum m.seqLengths f.numTokens) { f.stateAfter e.state k with
        entropy := (f.stateAfter e.state k).entropy.set (k + 1 : Nat) m.entropy
        seqLengths := some m.seqLengths } := by
    rw [attnHook_some (call ▸ here)
      ((sameSetup_stateAfter f e.state k).enabled.trans live.enabled)]
    simp [stateAfter_seqLengths f clear, before, (Forward.measured_count here).1, mismatch]
  obtain ⟨count, many⟩ := Nat.exists_eq_add_of_le' (List.count_pos_iff.mpr member)
  rw [runForward, split, execute_append,
    execute_prefix live f clear (.inl bound) (by simp [before]), Outcome.andThen_done,
    layerCalls, hooksOn_eq, live.hooks, many, List.map_replicate, List.replicate_succ]
  simp only [List.cons_append, execute, callStep, raises, Outcome.andThen_raised]
  exact ⟨_, rfl⟩

end Run

end DreamAifd
