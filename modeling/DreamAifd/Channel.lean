import DreamAifd.Emission

/-! The channel a forward emits, as a function of that forward alone, and the complete list
of ways a forward can end. -/
namespace DreamAifd

open Trace Segments

variable {α ρ : Type*}

theorem reset_eq_of_sameSetup {s t : AifdState α ρ} (same : SameSetup s t) : t.reset = s.reset := by
  cases s
  cases t
  simp only [AifdState.reset, AifdState.mk.injEq]
  exact ⟨same.candidates, trivial, trivial, trivial, same.enabled, same.keepBos, same.granularity,
    trivial, same.numLayers⟩

namespace Forward

variable [Field α]

def entropyAt (f : Forward α ρ) (auxId : Int) (t : Nat) : α :=
  match f.measured auxId with
  | some m => m.entropy.getD t 0
  | none => 0

def segmentation (f : Forward α ρ) (candidates : List Int) (numLayers : Nat) : List Nat :=
  match f.firstMeasured candidates numLayers with
  | some m => m.seqLengths
  | none => []

def Segmented (f : Forward α ρ) (candidates : List Int) (numLayers : Nat) : Prop :=
  ∀ m, f.firstMeasured candidates numLayers = some m → m.seqLengths.sum = f.numTokens

/-- Every candidate measured, and no candidate is listed twice. -/
def Complete (f : Forward α ρ) (candidates : List Int) : Prop :=
  candidates.Nodup ∧ ∀ c ∈ candidates, (f.measured c).isSome

instance (f : Forward α ρ) (candidates : List Int) : Decidable (f.Complete candidates) :=
  inferInstanceAs (Decidable (_ ∧ _))

/-- The hooks of the candidates agree on whether to measure, or the list repeats itself. -/
def Uniform (f : Forward α ρ) (candidates : List Int) : Prop :=
  (∀ c ∈ candidates, f.measured c = none) ∨ (∀ c ∈ candidates, (f.measured c).isSome) ∨
    ¬ candidates.Nodup

variable [LinearOrder α]

def layers (f : Forward α ρ) (candidates : List Int) (granularity : Granularity)
    (numLayers : Nat) : List Int :=
  assignLayers granularity candidates true
    (scoreMatrix (entropyRows candidates.length f.numTokens fun l =>
      f.entropyAt (candId candidates l)))
    (f.segmentation candidates numLayers)

variable [Add ρ] [Zero ρ]

def row (f : Forward α ρ) (auxId : Int) (t : Nat) : ρ := (f.value auxId.toNat).getD t 0

/-- The channel after the auxiliary outputs: selected rows, or the highest candidate's. -/
def channel (f : Forward α ρ) (candidates : List Int) (granularity : Granularity)
    (numLayers : Nat) : List ρ :=
  if f.Complete candidates then
    (List.range f.numTokens).map fun t =>
      f.row ((f.layers candidates granularity numLayers).getD t 0) t
  else f.value (candidates.getLastD 0).toNat

theorem length_channel (f : Forward α ρ) (candidates : List Int) (granularity : Granularity)
    (numLayers : Nat) : (f.channel candidates granularity numLayers).length = f.numTokens := by
  unfold channel
  split <;> simp [length_value]

end Forward

section FinalState

variable [Field α] [Add ρ] {e : Engine α ρ} {N : Nat}

theorem stateAfter_hiddenKeys (live : Live e N) (ready : Ready e.state) (f : Forward α ρ) :
    (f.stateAfter e.state N).hidden.keys = e.state.candidates.toFinset := by
  ext c
  rw [Dict.mem_keys, stateAfter_hidden, List.mem_toFinset]
  constructor
  · rintro ⟨rows, held⟩
    split at held
    next member => exact member.1
    next => exact ready.hidden c rows held
  · intro member
    obtain ⟨low, high⟩ := live.inRange c member
    exact ⟨_, if_pos ⟨member, low, high⟩⟩

theorem stateAfter_hiddenSize (live : Live e N) (ready : Ready e.state) (f : Forward α ρ) :
    (f.stateAfter e.state N).hidden.size = e.state.candidates.length ↔
      e.state.candidates.Nodup := by
  rw [Dict.size, stateAfter_hiddenKeys live ready f]
  exact Multiset.toFinset_card_eq_card_iff_nodup

theorem stateAfter_candidateHidden (live : Live e N) (f : Forward α ρ)
    {c : Int} (member : c ∈ e.state.candidates) :
    (f.stateAfter e.state N).hidden.get? c = some (f.value c.toNat) := by
  rw [stateAfter_hidden, if_pos ⟨member, live.inRange c member⟩]

theorem stateAfter_candidateEntropy (live : Live e N) (ready : Ready e.state) (f : Forward α ρ)
    {c : Int} (member : c ∈ e.state.candidates) :
    (f.stateAfter e.state N).entropy.get? c = (f.measured c).map (·.entropy) := by
  rw [stateAfter_entropy f ready.entropy, if_pos ⟨member, live.inRange c member⟩]

theorem stateAfter_entropySize (live : Live e N) (ready : Ready e.state) (f : Forward α ρ) :
    (f.stateAfter e.state N).entropy.size = 0 ↔
      ∀ c ∈ e.state.candidates, f.measured c = none := by
  rw [Dict.size, Finset.card_eq_zero, Finset.eq_empty_iff_forall_notMem]
  constructor
  · intro empty c member
    have absent := empty c
    rw [Dict.mem_keys, stateAfter_candidateEntropy live ready f member] at absent
    cases found : f.measured c with
    | none => rfl
    | some m => exact absurd ⟨m.entropy, by simp [found]⟩ absent
  · intro silent c held
    obtain ⟨row, found⟩ := Dict.mem_keys.mp held
    rw [stateAfter_entropy f ready.entropy] at found
    split at found
    next member => simp [silent c member.1] at found
    next => contradiction

theorem stateAfter_last (live : Live e N) (ready : Ready e.state) (f : Forward α ρ) :
    (f.stateAfter e.state N).hidden.last? =
      some (f.value (e.state.candidates.getLastD 0).toNat) := by
  obtain ⟨before, last, split⟩ := List.eq_nil_or_concat e.state.candidates |>.resolve_left
    live.nonempty
  have member : last ∈ e.state.candidates := by simp [split]
  have largest : ∀ c ∈ e.state.candidates, c ≤ last := by
    intro c hc
    have sorted := live.sorted
    rw [split, List.concat_eq_append, List.pairwise_append] at sorted
    rw [split, List.concat_eq_append, List.mem_append, List.mem_singleton] at hc
    rcases hc with earlier | rfl
    · exact sorted.2.2 c earlier last (by simp)
    · exact le_rfl
  have keys := stateAfter_hiddenKeys live ready f
  rw [Dict.last?_eq (keys ▸ List.mem_toFinset.mpr member)
    (by rw [keys]; exact fun c hc => largest c (List.mem_toFinset.mp hc)),
    stateAfter_candidateHidden live f member]
  simp [split]

theorem stateAfter_storedEntropy (live : Live e N) (ready : Ready e.state) (f : Forward α ρ)
    (all : ∀ c ∈ e.state.candidates, (f.measured c).isSome) :
    StoredEntropy (f.stateAfter e.state N) f.numTokens fun l =>
      f.entropyAt (candId e.state.candidates l) := by
  intro l bound
  have same := (sameSetup_stateAfter f e.state N).candidates
  have bound' : l < e.state.candidates.length := by rwa [same] at bound
  have member : e.state.candidates[l] ∈ e.state.candidates := List.getElem_mem bound'
  obtain ⟨m, found⟩ := Option.isSome_iff_exists.mp (all _ member)
  have entries : f.entropyAt (candId e.state.candidates l) = fun t => m.entropy.getD t 0 := by
    funext t
    rw [candId, List.getD_eq_getElem _ _ bound', Forward.entropyAt, found]
  simp only [same]
  rw [stateAfter_candidateEntropy live ready f member, found, entries, Option.map_some,
    ← Segments.eq_map_range_getD m.entropy 0 (Forward.measured_count found).1]

theorem stateAfter_storedHidden [Zero ρ] (live : Live e N) (f : Forward α ρ) :
    StoredHidden (f.stateAfter e.state N) f.numTokens f.row := by
  intro c member
  rw [(sameSetup_stateAfter f e.state N).candidates] at member
  rw [stateAfter_candidateHidden live f member]
  exact congrArg some (Segments.eq_map_range_getD _ 0 (f.length_value _))

end FinalState

section Ending

variable [Field α] [LinearOrder α] [Add ρ] {e : Engine α ρ} {N : Nat}

/-- Some but not all candidates measured: the lookup of a missing entropy raises, and the
emitted flag stays behind. -/
theorem runForward_partial (live : Live e N) (ready : Ready e.state) (f : Forward α ρ)
    (last : (N : Int) ∉ e.state.candidates) (segmented : f.Segmented e.state.candidates N)
    (mixed : ¬ f.Uniform e.state.candidates) :
    ∃ c ∈ e.state.candidates, f.measured c = none ∧ ∃ p, p.state.emitted = true ∧
      p.auxList = f.auxOutputs e.auxHiddenStateLayers N ∧
      runForward e N f = .raised (.missingEntropy c) p := by
  simp only [Forward.Uniform, not_or, not_not, not_forall, Option.isSome_iff_ne_none] at mixed
  obtain ⟨⟨measuring, member, found⟩, ⟨silent, member', absent⟩, distinct⟩ := mixed
  have same := sameSetup_stateAfter f e.state N
  obtain ⟨m, found⟩ := Option.ne_none_iff_exists'.mp found
  have many := (Forward.measured_count found).2
  have first : f.firstMeasured e.state.candidates N ≠ none := by
    rw [Ne, Forward.firstMeasured_eq_none live.inRange]
    exact fun none => by simp [none measuring member] at found
  obtain ⟨m₀, found₀⟩ := Option.ne_none_iff_exists'.mp first
  have some_segment : m₀.seqLengths ≠ [] := by
    intro none
    have total := segmented m₀ found₀
    rw [none, List.sum_nil] at total
    omega
  set s : AifdState α ρ := { f.stateAfter e.state N with emitted := true } with hs
  have entropy (c : Int) (hc : c ∈ e.state.candidates) :
      s.entropy.get? c = (f.measured c).map (·.entropy) :=
    stateAfter_candidateEntropy live ready f hc
  obtain ⟨c, hc, none, raises⟩ := selectLayers_missing (s := s)
    (by simp [hs, stateAfter_seqLengths f ready.seqLengths, found₀]) some_segment
    ⟨silent, by rw [hs]; exact same.candidates ▸ member', by rw [entropy silent member', absent]; rfl⟩
    true
  have hc' : c ∈ e.state.candidates := same.candidates ▸ hc
  rw [entropy c hc', Option.map_eq_none_iff] at none
  refine ⟨c, hc', none, ⟨s, f.auxOutputs e.auxHiddenStateLayers N⟩, rfl, rfl, ?_⟩
  rw [runForward_emit live f ready.seqLengths ready.emitted last segmented,
    emit_raised (by rw [f.length_value]; omega)
      (mt (stateAfter_entropySize live ready f).mp fun none =>
        by simp [none measuring member] at found)
      (by rw [same.candidates]; exact (stateAfter_hiddenSize live ready f).mpr distinct)
      (by rw [same.keepBos, live.keepBos]; exact raises)]

variable [Zero ρ]

/-- Nothing measured, or a repeated candidate: the emitting call takes the fallback. -/
theorem runForward_fallback (live : Live e N) (ready : Ready e.state) (f : Forward α ρ)
    (last : (N : Int) ∉ e.state.candidates) (segmented : f.Segmented e.state.candidates N)
    (unselected : (∀ c ∈ e.state.candidates, f.measured c = none) ∨ ¬ e.state.candidates.Nodup) :
    runForward e N f = .done ⟨e.state.reset, f.auxOutputs e.auxHiddenStateLayers N ++
      [f.channel e.state.candidates e.state.granularity N]⟩ := by
  have same := sameSetup_stateAfter f e.state N
  have incomplete : ¬ f.Complete e.state.candidates := by
    rintro ⟨distinct, all⟩
    rcases unselected with silent | repeated
    · obtain ⟨c, member⟩ := List.exists_mem_of_ne_nil _ live.nonempty
      have := all c member
      rw [silent c member] at this
      contradiction
    · exact repeated distinct
  rw [runForward_emit live f ready.seqLengths ready.emitted last segmented, emit_fallback]
  · rw [appendFallback, Pass.reset, stateAfter_last live ready f, reset_eq_of_sameSetup same,
      Forward.channel, if_neg incomplete]
    rfl
  · rcases unselected with silent | repeated
    · exact .inr (.inl ((stateAfter_entropySize live ready f).mpr silent))
    · refine .inr (.inr ?_)
      rw [same.candidates]
      exact mt (stateAfter_hiddenSize live ready f).mp repeated

/-- All candidates measured: the emitting call appends the selected rows. -/
theorem runForward_selected (live : Live e N) (ready : Ready e.state) (f : Forward α ρ)
    (last : (N : Int) ∉ e.state.candidates) (segmented : f.Segmented e.state.candidates N)
    (complete : f.Complete e.state.candidates) :
    runForward e N f = .done ⟨e.state.reset, f.auxOutputs e.auxHiddenStateLayers N ++
      [f.channel e.state.candidates e.state.granularity N]⟩ := by
  obtain ⟨distinct, all⟩ := complete
  have same := sameSetup_stateAfter f e.state N
  have filled : (f.stateAfter e.state N).candidates ≠ [] := same.candidates ▸ live.nonempty
  obtain ⟨c, member⟩ := List.exists_mem_of_ne_nil _ live.nonempty
  obtain ⟨m, found⟩ := Option.isSome_iff_exists.mp (all c member)
  have many := (Forward.measured_count found).2
  have first : f.firstMeasured e.state.candidates N ≠ none := by
    rw [Ne, Forward.firstMeasured_eq_none live.inRange]
    exact fun silent => by simp [silent c member] at found
  obtain ⟨m₀, found₀⟩ := Option.ne_none_iff_exists'.mp first
  have segments : f.segmentation e.state.candidates N = m₀.seqLengths := by
    rw [Forward.segmentation, found₀]
  have total : m₀.seqLengths.sum = f.numTokens := segmented m₀ found₀
  have some_segment : m₀.seqLengths ≠ [] := by
    intro none
    rw [none, List.sum_nil] at total
    omega
  set s : AifdState α ρ := { f.stateAfter e.state N with emitted := true } with hs
  have selected : selectLayers s true = .ok (some
      (f.layers e.state.candidates e.state.granularity N)) := by
    have stored : StoredEntropy s f.numTokens _ := stateAfter_storedEntropy live ready f all
    rw [selectLayers_stored (s := s) filled stored
      (by simp [hs, stateAfter_seqLengths f ready.seqLengths, found₀]) some_segment total true,
      Forward.layers, segments]
    simp only [hs, same.candidates, same.granularity]
  have gathered : gatherPerRequest s (f.layers e.state.candidates e.state.granularity N) =
      .ok (f.channel e.state.candidates e.state.granularity N) := by
    have size : (f.layers e.state.candidates e.state.granularity N).length = f.numTokens := by
      rw [Forward.layers, length_assignLayers, segments, total]
    have stored : StoredHidden s f.numTokens f.row := stateAfter_storedHidden live f
    rw [Segments.eq_map_range_getD _ 0 size, gatherPerRequest_stored (s := s) filled stored,
      Forward.channel, if_pos ⟨distinct, all⟩]
    intro t bound
    rw [List.getD_eq_getElem _ _ (size ▸ bound)]
    have assigned := assignLayers_mem live.nonempty (length_scoreMatrix_entropyRows
        e.state.candidates.length f.numTokens fun l => f.entropyAt (candId e.state.candidates l))
      e.state.granularity true (f.segmentation e.state.candidates N)
    rw [show s.candidates = e.state.candidates from same.candidates]
    exact assigned _ (List.getElem_mem _)
  rw [runForward_emit live f ready.seqLengths ready.emitted last segmented,
    emit_selected (by rw [f.length_value]; omega)
      (mt (stateAfter_entropySize live ready f).mp fun silent => by simp [silent c member] at found)
      (by rw [same.candidates]; exact (stateAfter_hiddenSize live ready f).mpr distinct)
      (by rw [same.keepBos, live.keepBos]; exact selected) gathered,
    reset_eq_of_sameSetup same]

/-- What a forward from a clean state emits, when it emits. -/
theorem runForward_emits (live : Live e N) (ready : Ready e.state) (f : Forward α ρ)
    (last : (N : Int) ∉ e.state.candidates) (segmented : f.Segmented e.state.candidates N)
    (uniform : f.Uniform e.state.candidates) :
    runForward e N f = .done ⟨e.state.reset, f.auxOutputs e.auxHiddenStateLayers N ++
      [f.channel e.state.candidates e.state.granularity N]⟩ := by
  by_cases distinct : e.state.candidates.Nodup
  · rcases uniform with silent | all | repeated
    · exact runForward_fallback live ready f last segmented (.inl silent)
    · exact runForward_selected live ready f last segmented ⟨distinct, all⟩
    · exact absurd distinct repeated
  · exact runForward_fallback live ready f last segmented (.inr distinct)

end Ending

end DreamAifd
