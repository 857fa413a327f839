import DreamAifd.History

/-! Forwards scripted to give prescribed measurements: with zero queries the entropy of a
token is its log-sum-exp, so every entropy matrix and every segmentation occurs in some
forward, and hooks may fail on any set of layers. -/
namespace DreamAifd

open Trace Segments

variable {α ρ : Type*} [Field α]

def scriptedLayer (α : Type*) [Field α] (heads : Nat) : AttnModule α := ⟨heads, 1, 1, 1⟩

def scriptedCall {heads : Nat} (numTokens : Nat) (seqLengths : List Nat)
    (entropy : Nat → Fin heads → α) : AttnCall α where
  layer := scriptedLayer α heads
  args := .queryKey (some (List.replicate numTokens fun _ => 0))
    (some (List.replicate numTokens fun _ => 0))
  context := some (some {
    attnMask := some fun query key => decide (query < key)
    actualSeqLengthsQ := some (.of seqLengths)
    numDecodeTokens := 0 })
  npuFusedInferAttentionScore := fun _ => some {
    out := fun _ _ _ => 0
    lse := ⟨[heads, numTokens, 1], fun index =>
      if bound : index.getD 0 0 < heads then entropy (index.getD 1 0) ⟨index.getD 0 0, bound⟩ else 0⟩ }

def skippedCall (α : Type*) [Field α] : AttnCall α where
  layer := scriptedLayer α 1
  args := .tooFew
  context := none
  npuFusedInferAttentionScore := fun _ => none

theorem measure_skipped : measure (skippedCall α) = none := rfl

theorem measure_scripted {heads numTokens : Nat} (many : 1 < numTokens) {seqLengths : List Nat}
    (nonempty : seqLengths ≠ []) (entropy : Nat → Fin heads → α) :
    measure (scriptedCall numTokens seqLengths entropy) =
      some ⟨(List.range numTokens).map fun t => headMean (entropy t), seqLengths⟩ := by
  have ends : cumulative 0 seqLengths ≠ [] := by
    rw [← List.length_pos_iff, length_cumulative]
    exact List.length_pos_iff.mpr nonempty
  have admitted : prefillInput (scriptedCall numTokens seqLengths entropy) = some {
      query := List.replicate numTokens fun _ => 0
      key := List.replicate numTokens fun _ => 0
      attnMask := fun query key => decide (query < key)
      seqLengths := .of seqLengths
      many := by simpa using many
      segmented := ends } := by
    simp [prefillInput, scriptedCall, many, ends]
  unfold measure
  rw [admitted]
  simp only [tokenEntropy, fia, scriptedCall, scriptedLayer, List.length_replicate,
    asTn_headMajor, CumulativeLengths.ends_of, cumulativeToLengths_cumulative, Option.some.injEq,
    Measurement.mk.injEq, and_true]
  apply List.ext_getElem
  · simp
  · intro t _ _
    simp [headMean, headEntropy]

/-- `none` for a layer scripts a hook that returns early. -/
def scriptedForward (heads numTokens : Nat) (seqLengths : List Nat)
    (entropy : Nat → Option (Nat → Fin heads → α)) (rows : Nat → Nat → ρ) : Forward α ρ where
  numTokens
  attn idx := match entropy idx with
    | some He => scriptedCall numTokens seqLengths He
    | none => skippedCall α
  layerOut layerIdx := ((List.range numTokens).map (rows layerIdx), none)
  tokens idx n counted := by
    split at counted
    · simpa [AttnCall.count, scriptedCall] using counted.symm
    · simp [AttnCall.count, skippedCall] at counted
  hiddenRows := by simp
  residualRows := by simp

variable {heads numTokens : Nat} {seqLengths : List Nat}

theorem measured_scriptedForward (many : 1 < numTokens) (nonempty : seqLengths ≠ [])
    (entropy : Nat → Option (Nat → Fin heads → α)) (rows : Nat → Nat → ρ) (auxId : Int) :
    (scriptedForward heads numTokens seqLengths entropy rows).measured auxId =
      (entropy (auxId.toNat - 1)).map fun He =>
        ⟨(List.range numTokens).map fun t => headMean (He t), seqLengths⟩ := by
  simp only [Forward.measured, scriptedForward]
  cases entropy (auxId.toNat - 1) with
  | none => exact measure_skipped
  | some He => exact measure_scripted many nonempty He

theorem seqLengths_ne_nil (many : 1 < numTokens) (total : seqLengths.sum = numTokens) :
    seqLengths ≠ [] := by
  rintro rfl
  rw [List.sum_nil] at total
  omega

theorem segmented_scriptedForward (many : 1 < numTokens) (total : seqLengths.sum = numTokens)
    (entropy : Nat → Option (Nat → Fin heads → α)) (rows : Nat → Nat → ρ) (candidates : List Int)
    (numLayers : Nat) :
    (scriptedForward heads numTokens seqLengths entropy rows).Segmented candidates numLayers := by
  intro m found
  obtain ⟨k, _, _, _, here⟩ := Forward.firstMeasured_split found
  rw [measured_scriptedForward many (seqLengths_ne_nil many total), Option.map_eq_some_iff] at here
  obtain ⟨He, _, rfl⟩ := here
  exact total

/-- A script without failing hooks emits. -/
theorem emits_scriptedForward (many : 1 < numTokens) (total : seqLengths.sum = numTokens)
    (He : Nat → Nat → Fin heads → α) (rows : Nat → Nat → ρ) {candidates : List Int}
    {numLayers : Nat} (last : (numLayers : Int) ∉ candidates) :
    (scriptedForward heads numTokens seqLengths (fun idx => some (He idx)) rows).Emits
      candidates numLayers := by
  refine ⟨last, segmented_scriptedForward many total _ rows candidates numLayers,
    .inr (.inl fun c _ => ?_)⟩
  rw [measured_scriptedForward many (seqLengths_ne_nil many total)]
  rfl

/-- Layers a script without failing hooks is assigned. -/
theorem layers_scriptedForward [LinearOrder α] (many : 1 < numTokens)
    (total : seqLengths.sum = numTokens) (He : Nat → Nat → Fin heads → α) (rows : Nat → Nat → ρ)
    {candidates : List Int} {numLayers : Nat} (filled : candidates ≠ [])
    (inRange : ∀ c ∈ candidates, InRange numLayers c) (granularity : Granularity) :
    (scriptedForward heads numTokens seqLengths (fun idx => some (He idx)) rows).layers
        candidates granularity numLayers =
      assignLayers granularity candidates true
        (scoreMatrix (entropyRows candidates.length numTokens fun l t =>
          headMean (He ((candId candidates l).toNat - 1) t))) seqLengths := by
  have measured (c : Int) := measured_scriptedForward many (seqLengths_ne_nil many total)
    (fun idx => some (He idx)) rows c
  have segments : (scriptedForward heads numTokens seqLengths (fun idx => some (He idx)) rows).segmentation
      candidates numLayers = seqLengths := by
    cases found : (scriptedForward heads numTokens seqLengths (fun idx => some (He idx)) rows).firstMeasured
        candidates numLayers with
    | none =>
      obtain ⟨c, member⟩ := List.exists_mem_of_ne_nil _ filled
      have silent := (Forward.firstMeasured_eq_none inRange).mp found c member
      rw [measured] at silent
      contradiction
    | some m =>
      obtain ⟨k, _, _, _, here⟩ := Forward.firstMeasured_split found
      rw [measured] at here
      cases here
      rw [Forward.segmentation, found]
  have entries : entropyRows candidates.length numTokens (fun l => (scriptedForward heads numTokens
        seqLengths (fun idx => some (He idx)) rows).entropyAt (candId candidates l)) =
      entropyRows candidates.length numTokens fun l t =>
        headMean (He ((candId candidates l).toNat - 1) t) := by
    refine List.map_congr_left fun l _ => List.map_congr_left fun t member => ?_
    simp only [Forward.entropyAt, measured]
    simp [List.mem_range.mp member]
  rw [Forward.layers, segments]
  exact congrArg (fun rows => assignLayers granularity candidates true (scoreMatrix rows) seqLengths)
    entries

def plainModel (depth : Nat) : TargetModel where
  numLayers := depth
  paths
    | .modelLayers => some (List.replicate depth .attention)
    | _ => none
  consistent layers found := by
    cases depth with
    | zero => simp [findLayers] at found
    | succ depth =>
      simp [findLayers] at found
      rw [← found.1, List.length_replicate]

def plainConfig (aux candidates : List Int) : HfConfig := ⟨aux, some ⟨some candidates, none⟩⟩

def plainEngine (depth : Nat) (aux candidates : List Int) : Engine ℚ ℚ :=
  (load ℚ ℚ (plainModel depth) (plainConfig aux candidates)).state

/-- One request whose entropy grows with the layer; every layer's rows carry its number. -/
def rampForward (numTokens : Nat) : Forward ℚ ℚ :=
  scriptedForward 1 numTokens [numTokens] (fun idx => some fun _ _ => idx) fun layerIdx _ => layerIdx

end DreamAifd
