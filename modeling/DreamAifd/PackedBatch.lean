import DreamAifd.History
import DreamAifd.TndAttention

/-! Steps over several requests. With an operator that treats segments on their own, what a
request contributes to the channel depends on its own tokens and on whether its step counts
decode tokens. -/
namespace DreamAifd

open Averages FirstMin Segments

variable {α ρ : Type*}

structure Request (layers : Nat → AttnModule α) (ρ : Type*) where
  length : Nat
  positive : 0 < length
  query : ∀ idx, Nat → Fin ((layers idx).numHeads * (layers idx).headSize) → α
  key : ∀ idx, Nat → Fin ((layers idx).numKvHeads * (layers idx).headSize) → α
  hidden : Nat → Nat → ρ
  residual : Nat → Nat → ρ

abbrev LayerOutputs (layer : AttnModule α) :=
  SegmentOutputs α layer.numHeads layer.numKvHeads layer.headSize

variable {layers : Nat → AttnModule α}

namespace Request

def tokens (r : Request layers ρ) (idx : Nat) :
    List (TokenRows α (layers idx).numHeads (layers idx).numKvHeads (layers idx).headSize) :=
  (List.range r.length).map fun t => (viewHeads (r.query idx t), viewHeads (r.key idx t))

/-- Output reported under a layer id; the embedding has no residual. -/
def value [Add ρ] (r : Request layers ρ) (layerIdx t : Nat) : ρ :=
  if layerIdx = 0 then r.hidden layerIdx t else r.hidden layerIdx t + r.residual layerIdx t

end Request

def lengths (reqs : List (Request layers ρ)) : List Nat := reqs.map Request.length

theorem lengths_positive {reqs : List (Request layers ρ)} : ∀ n ∈ lengths reqs, 0 < n := by
  simp only [lengths, List.forall_mem_map]
  exact fun r _ => r.positive

def packRows {β : Type*} (reqs : List (Request layers ρ)) (row : Request layers ρ → Nat → β) : List β :=
  reqs.flatMap fun r => (List.range r.length).map (row r)

theorem length_packRows {β : Type*} (reqs : List (Request layers ρ)) (row : Request layers ρ → Nat → β) :
    (packRows reqs row).length = (lengths reqs).sum := by
  simp [packRows, List.length_flatMap, lengths]

theorem slice_packRows {β : Type*} (reqs : List (Request layers ρ)) (row : Request layers ρ → Nat → β)
    (k : Nat) (hk : k < reqs.length) :
    slice (start (lengths reqs) k) reqs[k].length (packRows reqs row) =
      (List.range reqs[k].length).map (row reqs[k]) := by
  have window := slice_flatMap (fun r => (List.range r.length).map (row r)) reqs k hk
  simp only [List.length_map, List.length_range] at window
  exact window

theorem getD_packRows {β : Type*} (reqs : List (Request layers ρ)) (row : Request layers ρ → Nat → β)
    (k : Nat) (hk : k < reqs.length) {i : Nat} (inside : i < reqs[k].length) (default : β) :
    (packRows reqs row).getD (start (lengths reqs) k + i) default = row reqs[k] i := by
  rw [← getD_slice inside, slice_packRows]
  simp [inside]

theorem zipWith_packRows {β γ δ : Type*} (f : β → γ → δ) (reqs : List (Request layers ρ))
    (left : Request layers ρ → Nat → β) (right : Request layers ρ → Nat → γ) :
    List.zipWith f (packRows reqs left) (packRows reqs right) =
      packRows reqs fun r t => f (left r t) (right r t) := by
  induction reqs with
  | nil => rfl
  | cons r reqs ih =>
    simp only [packRows, List.flatMap_cons] at ih ⊢
    rw [List.zipWith_append (by simp), ih]
    simp [List.zipWith_map]

theorem map_packRows {β γ : Type*} (f : β → γ) (reqs : List (Request layers ρ))
    (row : Request layers ρ → Nat → β) :
    (packRows reqs row).map f = packRows reqs fun r t => f (row r t) := by
  simp [packRows, List.map_flatMap, Function.comp_def]

/-- Numbering packed rows from 0 numbers those of request `k` from its start. -/
theorem mapIdx_packRows {β γ : Type*} (g : Nat → β → γ) (reqs : List (Request layers ρ))
    (row : Request layers ρ → Nat → β) (result : Request layers ρ → Nat → γ)
    (each : ∀ k (hk : k < reqs.length), ∀ i < reqs[k].length,
      g (start (lengths reqs) k + i) (row reqs[k] i) = result reqs[k] i) :
    (packRows reqs row).mapIdx g = packRows reqs result := by
  have numbered := mapIdx_flatMap (fun r => (List.range r.length).map (row r)) g
    (fun r => (List.range r.length).map (result r)) reqs 0
  simp only [Nat.zero_add, List.length_map, List.length_range] at numbered
  refine numbered fun k hk => List.ext_getElem (by simp) fun i bound _ => ?_
  have inside : i < reqs[k].length := by simpa using bound
  simp only [List.getElem_mapIdx, List.getElem_map, List.getElem_range]
  exact each k hk i inside

def batchCall (operator : Operator α) (threshold : Nat) (reqs : List (Request layers ρ)) (idx : Nat) :
    AttnCall α where
  layer := layers idx
  args := .queryKey (some (packRows reqs fun r => r.query idx)) (some (packRows reqs fun r => r.key idx))
  context := some (some (buildMetadata threshold (lengths reqs)))
  npuFusedInferAttentionScore := operator _ _ _

def batchForward (operator : Operator α) (threshold : Nat) (reqs : List (Request layers ρ)) :
    Forward α ρ where
  numTokens := (lengths reqs).sum
  attn := batchCall operator threshold reqs
  layerOut layerIdx := (packRows reqs fun r => r.hidden layerIdx,
    if layerIdx = 0 then none else some (packRows reqs fun r => r.residual layerIdx))
  tokens idx n counted := by
    simp only [AttnCall.count, batchCall, Option.some.injEq] at counted
    rw [← counted, length_packRows]
  hiddenRows _ := length_packRows ..
  residualRows layerIdx r held := by
    split at held
    · contradiction
    · cases held
      exact length_packRows ..

theorem value_batchForward [Add ρ] (operator : Operator α) (threshold : Nat)
    (reqs : List (Request layers ρ)) (layerIdx : Nat) :
    (batchForward operator threshold reqs).value layerIdx =
      packRows reqs fun r => r.value layerIdx := by
  by_cases embedding : layerIdx = 0
  · simp only [Forward.value, batchForward, layerValue, embedding, if_true]
    exact congrArg (packRows reqs) (funext₂ fun r t => (if_pos rfl).symm)
  · simp only [Forward.value, batchForward, layerValue, embedding, if_false, zipWith_packRows]
    exact congrArg (packRows reqs) (funext₂ fun r t => (if_neg embedding).symm)

theorem row_batchForward [Add ρ] [Zero ρ] {operator : Operator α} {threshold : Nat}
    {reqs : List (Request layers ρ)} (c : Int) {k : Nat} (hk : k < reqs.length) {i : Nat}
    (inside : i < reqs[k].length) :
    (batchForward operator threshold reqs).row c (start (lengths reqs) k + i) =
      reqs[k].value c.toNat i := by
  rw [Forward.row, value_batchForward]
  exact getD_packRows reqs (fun r => r.value c.toNat) k hk inside 0

def PurePrefill (threshold : Nat) (reqs : List (Request layers ρ)) : Prop :=
  (splitDecodesAndPrefills (lengths reqs) threshold).numDecodeTokens = 0

theorem requests_ne_nil {reqs : List (Request layers ρ)} (many : 1 < (lengths reqs).sum) : reqs ≠ [] := by
  rintro rfl
  simp [lengths] at many

def packedInput (reqs : List (Request layers ρ)) (idx : Nat) (many : 1 < (lengths reqs).sum) :
    PrefillInput (layers idx) where
  query := packRows reqs fun r => r.query idx
  key := packRows reqs fun r => r.key idx
  attnMask := splitfuseAttnMask
  seqLengths := .of (lengths reqs)
  many := many.trans_eq (length_packRows reqs fun r => r.query idx).symm
  segmented := by
    show cumulative 0 (lengths reqs) ≠ []
    rw [← List.length_pos_iff, length_cumulative, lengths, List.length_map]
    exact List.length_pos_iff.mpr (requests_ne_nil many)

theorem prefillInput_batchCall {operator : Operator α} {threshold : Nat} {reqs : List (Request layers ρ)}
    (pure : PurePrefill threshold reqs) (many : 1 < (lengths reqs).sum) (idx : Nat) :
    prefillInput (batchCall operator threshold reqs idx) = some (packedInput reqs idx many) := by
  have none_counted : (splitDecodesAndPrefills (lengths reqs) threshold).numDecodeTokens = 0 := pure
  have ends : cumulative 0 (lengths reqs) ≠ [] := (packedInput reqs idx many).segmented
  simp [prefillInput, batchCall, buildMetadata, length_packRows, many, ends, none_counted, packedInput]

/-- The operator's outputs for the packed tensors, request by request. -/
theorem fia_packed {operator : Operator α} {reqs : List (Request layers ρ)} {idx : Nat}
    {outputs : LayerOutputs (layers idx)} (computes : Computes (operator _ _ _) outputs) (filled : reqs ≠ []) :
    ∃ output value, fia (operator _ _ _) ((packRows reqs fun r => r.query idx).map viewHeads)
        ((packRows reqs fun r => r.key idx).map viewHeads) ((packRows reqs fun r => r.key idx).map viewHeads)
        (layers idx).scale splitfuseAttnMask (cumulative 0 (lengths reqs)) = some output ∧
      LseLayout output.lse (lengths reqs).sum (layers idx).numHeads value ∧
      ∀ k (hk : k < reqs.length), ∀ i < reqs[k].length,
        output.out (start (lengths reqs) k + i) =
            outputs.out (layers idx).scale (reqs[k].tokens idx) i ∧
          ∀ h : Fin (layers idx).numHeads, value (start (lengths reqs) k + i) h =
            outputs.lse (layers idx).scale (reqs[k].tokens idx) i h := by
  have segments : reqs.map (·.tokens idx) ≠ [] := by simpa using filled
  have nonempty : ∀ s ∈ reqs.map (·.tokens idx), s ≠ [] := by
    simp only [List.forall_mem_map, Request.tokens]
    intro r _ none
    have := r.positive
    simp at none
    omega
  obtain ⟨output, value, returned, layout, entries⟩ :=
    computes (layers idx).scale (reqs.map (·.tokens idx)) segments nonempty
  have sizes : (reqs.map (·.tokens idx)).map List.length = lengths reqs := by
    simp [lengths, Request.tokens, Function.comp_def]
  rw [List.length_flatten, sizes] at layout
  rw [sizes] at entries
  have queries : (reqs.map (·.tokens idx)).flatten.map (·.1) =
      packRows reqs fun r t => viewHeads (r.query idx t) := by
    rw [← List.flatMap_def]
    exact map_packRows Prod.fst reqs _
  have keys : (reqs.map (·.tokens idx)).flatten.map (·.2) =
      packRows reqs fun r t => viewHeads (r.key idx t) := by
    rw [← List.flatMap_def]
    exact map_packRows Prod.snd reqs _
  refine ⟨output, value, ?_, layout, ?_⟩
  · rw [← returned, fia, packedArgs, queries, keys, sizes, map_packRows, map_packRows]
  · intro k hk i inside
    have entry := entries k (by simpa using hk) i (by simpa [Request.tokens] using inside)
    rw [List.getElem_map] at entry
    exact entry

section Measured

variable [Field α]

theorem measure_decode {operator : Operator α} {threshold : Nat} {reqs : List (Request layers ρ)}
    (decode : ¬ PurePrefill threshold reqs) (idx : Nat) :
    measure (batchCall operator threshold reqs idx) = none := by
  have counted : 0 < (splitDecodesAndPrefills (lengths reqs) threshold).numDecodeTokens :=
    Nat.pos_of_ne_zero decode
  have skipped : prefillInput (batchCall operator threshold reqs idx) = none := by
    simp [prefillInput, batchCall, buildMetadata, counted]
  rw [measure, skipped]

def Request.entropyOf (r : Request layers ρ) (idx : Nat) (outputs : LayerOutputs (layers idx))
    (t : Nat) : α :=
  headMean (headEntropy (layers idx).scale (viewHeads (r.query idx t))
    (outputs.out (layers idx).scale (r.tokens idx) t) (outputs.lse (layers idx).scale (r.tokens idx) t))

theorem tokenEntropy_packedInput {operator : Operator α} {reqs : List (Request layers ρ)} {idx : Nat}
    {outputs : LayerOutputs (layers idx)} (computes : Computes (operator _ _ _) outputs)
    (many : 1 < (lengths reqs).sum) :
    tokenEntropy (layers idx) (operator _ _ _) (packedInput reqs idx many) =
      some (packRows reqs fun r => r.entropyOf idx outputs) := by
  obtain ⟨output, value, call, layout, entries⟩ := fia_packed computes (requests_ne_nil many)
  obtain ⟨x, recovered, cells⟩ := asTn_layout layout
  simp only [tokenEntropy, packedInput, CumulativeLengths.ends_of, call, length_packRows, recovered,
    Option.some.injEq]
  rw [map_packRows]
  apply mapIdx_packRows _ reqs _ _
  intro k hk i inside
  obtain ⟨outs, lses⟩ := entries k hk i inside
  have position : start (lengths reqs) k + i < (lengths reqs).sum := start_map_add_lt Request.length hk inside
  rw [Request.entropyOf, outs, ← funext lses]
  refine congrArg headMean (congrArg _ (funext fun h => ?_))
  exact cells _ position h h.is_lt

theorem measure_batchCall {operator : Operator α} {threshold : Nat} {reqs : List (Request layers ρ)}
    {idx : Nat} {outputs : LayerOutputs (layers idx)} (computes : Computes (operator _ _ _) outputs)
    (pure : PurePrefill threshold reqs) (many : 1 < (lengths reqs).sum) :
    measure (batchCall operator threshold reqs idx) =
      some ⟨packRows reqs fun r => r.entropyOf idx outputs, lengths reqs⟩ := by
  have computed := tokenEntropy_packedInput computes many
  rw [measure, prefillInput_batchCall pure many idx]
  simp only [batchCall]
  rw [computed]
  simp only [packedInput, CumulativeLengths.ends_of, cumulativeToLengths_cumulative]

end Measured

instance {threshold : Nat} {reqs : List (Request layers ρ)} : Decidable (PurePrefill threshold reqs) :=
  inferInstanceAs (Decidable (_ = _))

theorem many_of_purePrefill {threshold : Nat} {reqs : List (Request layers ρ)}
    (multiple : 1 ≤ threshold) (pure : PurePrefill threshold reqs) (some_request : reqs ≠ []) :
    1 < (lengths reqs).sum := by
  have listed : lengths reqs ≠ [] := by simpa [lengths] using some_request
  have long := (numDecodeTokens_eq_zero_iff listed lengths_positive threshold).mp pure
  obtain ⟨first, rest, split⟩ := List.exists_cons_of_ne_nil listed
  rw [split, List.headD_cons] at long
  rw [split, List.sum_cons]
  omega

section Window

variable [Field α] [LinearOrder α] {L T n offset : Nat} {He own : Nat → Nat → α}

theorem tokenChoice_window (some_layer : 0 < L) {i : Nat} (inside : i < n) (bound : offset + n ≤ T)
    (same : ∀ l < L, ∀ i < n, He l (offset + i) = own l i) :
    tokenChoice (scoreMatrix (entropyRows L T He)) (offset + i) =
      tokenChoice (scoreMatrix (entropyRows L n own)) i := by
  by_cases single : L = 1
  · subst single
    rw [tokenChoice_single, tokenChoice_single]
  · have many : 2 ≤ L := by omega
    rw [tokenChoice_iff many (show offset + i < T by omega)]
    refine (isFirstMin_congr fun l member => ?_).mp ((tokenChoice_iff many inside).mp rfl)
    have := member.2
    rw [score, score, same l member.2 i inside, same (l - 1) (by omega) i inside]

theorem sampleChoice_window (some_layer : 0 < L) (positive : 0 < n) (bound : offset + n ≤ T)
    (same : ∀ l < L, ∀ i < n, He l (offset + i) = own l i) :
    sampleChoice true (scoreMatrix (entropyRows L T He)) offset n =
      sampleChoice true (scoreMatrix (entropyRows L n own)) 0 n := by
  by_cases single : L = 1
  · subst single
    rw [sampleChoice_single, sampleChoice_single]
  · have many : 2 ≤ L := by omega
    rw [sampleChoice_iff many bound positive]
    refine (isFirstMin_congr fun l member => average_congr fun i inside => ?_).mp
      ((sampleChoice_iff many (Nat.zero_add n).le positive).mp rfl)
    have := member.2
    rw [Nat.zero_add, score, score, same l member.2 i inside, same (l - 1) (by omega) i inside]

variable (He own) in
/-- The layers of a segment are those it would be assigned as the only segment. -/
theorem assignLayers_window {seqLens : List Nat} (positive : ∀ n ∈ seqLens, 0 < n) {k : Nat}
    (hk : k < seqLens.length) {candidates : List Int} (nonempty : candidates ≠ [])
    (granularity : Granularity)
    (same : ∀ l < candidates.length, ∀ i < seqLens[k], He l (start seqLens k + i) = own l i)
    {i : Nat} (inside : i < seqLens[k]) :
    (assignLayers granularity candidates true
        (scoreMatrix (entropyRows candidates.length seqLens.sum He)) seqLens).getD
          (start seqLens k + i) 0 =
      (assignLayers granularity candidates true
        (scoreMatrix (entropyRows candidates.length seqLens[k] own)) [seqLens[k]]).getD i 0 := by
  have some_layer : 0 < candidates.length := List.length_pos_iff.mpr nonempty
  have bound := start_add_length_le hk
  cases granularity with
  | token =>
    have position : start seqLens k + i < seqLens.sum := by omega
    simp only [assignLayers, List.sum_singleton, List.getD_eq_getElem?_getD, List.getElem?_map,
      List.getElem?_range position, List.getElem?_range inside, Option.map_some, Option.getD_some]
    rw [tokenChoice_window some_layer inside bound same]
  | sample =>
    rw [← getD_slice inside, slice_assignLayers,
      sampleChoice_window some_layer (positive _ (List.getElem_mem hk)) bound same]
    simp [assignLayers, forSegments]

end Window

section Completeness

variable [Field α] {operator : Operator α} {threshold : Nat} {reqs : List (Request layers ρ)}

variable {outputs : ∀ idx, LayerOutputs (layers idx)}

theorem measured_pure (computes : ∀ idx, Computes (operator _ _ _) (outputs idx))
    (multiple : 1 ≤ threshold) (pure : PurePrefill threshold reqs) (some_request : reqs ≠ []) (c : Int) :
    (batchForward operator threshold reqs).measured c =
      some ⟨packRows reqs fun r => r.entropyOf (c.toNat - 1) (outputs (c.toNat - 1)), lengths reqs⟩ :=
  measure_batchCall (computes _) pure (many_of_purePrefill multiple pure some_request)

theorem complete_batchForward (computes : ∀ idx, Computes (operator _ _ _) (outputs idx))
    (multiple : 1 ≤ threshold) (some_request : reqs ≠ []) {candidates : List Int}
    (nonempty : candidates ≠ []) :
    (batchForward operator threshold reqs).Complete candidates ↔
      PurePrefill threshold reqs ∧ candidates.Nodup := by
  rw [and_comm]
  refine and_congr_right fun _ => ⟨fun all => ?_, fun pure c _ => ?_⟩
  · by_contra decode
    obtain ⟨c, member⟩ := List.exists_mem_of_ne_nil _ nonempty
    have found := all c member
    rw [show (batchForward operator threshold reqs).measured c = none from measure_decode decode _]
      at found
    contradiction
  · rw [measured_pure computes multiple pure some_request]
    rfl

theorem segmentation_batchForward (computes : ∀ idx, Computes (operator _ _ _) (outputs idx))
    (multiple : 1 ≤ threshold) (pure : PurePrefill threshold reqs) (some_request : reqs ≠ [])
    {candidates : List Int} (nonempty : candidates ≠ []) {N : Nat}
    (inRange : ∀ c ∈ candidates, InRange N c) :
    (batchForward operator threshold reqs).segmentation candidates N = lengths reqs := by
  cases found : (batchForward operator threshold reqs).firstMeasured candidates N with
  | none =>
    obtain ⟨c, member⟩ := List.exists_mem_of_ne_nil _ nonempty
    have silent := (Forward.firstMeasured_eq_none inRange).mp found c member
    rw [measured_pure computes multiple pure some_request] at silent
    contradiction
  | some m =>
    obtain ⟨k, _, _, _, here⟩ := Forward.firstMeasured_split found
    rw [measured_pure computes multiple pure some_request] at here
    cases here
    rw [Forward.segmentation, found]

theorem segmented_batchForward (computes : ∀ idx, Computes (operator _ _ _) (outputs idx))
    (multiple : 1 ≤ threshold) (some_request : reqs ≠ []) (candidates : List Int) (N : Nat) :
    (batchForward operator threshold reqs).Segmented candidates N := by
  intro m found
  obtain ⟨k, _, _, _, here⟩ := Forward.firstMeasured_split found
  by_cases pure : PurePrefill threshold reqs
  · rw [measured_pure computes multiple pure some_request] at here
    cases here
    rfl
  · rw [show (batchForward operator threshold reqs).measured _ = none from measure_decode pure _] at here
    contradiction

theorem uniform_batchForward (computes : ∀ idx, Computes (operator _ _ _) (outputs idx))
    (multiple : 1 ≤ threshold) (some_request : reqs ≠ []) (candidates : List Int) :
    (batchForward operator threshold reqs).Uniform candidates := by
  by_cases pure : PurePrefill threshold reqs
  · refine .inr (.inl fun c _ => ?_)
    rw [measured_pure computes multiple pure some_request]
    rfl
  · exact .inl fun c _ => measure_decode pure _

end Completeness

section Channel

variable [Field α] [LinearOrder α] [Add ρ] [Zero ρ]

/-- Rows of a request in the channel: those of the layers its own entropies select, or of the
highest candidate where nothing is selected. -/
def Request.aifdRows (r : Request layers ρ) (candidates : List Int) (granularity : Granularity)
    (entropy : Nat → Nat → α) (selecting : Prop) [Decidable selecting] : List ρ :=
  (List.range r.length).map fun i =>
    if selecting then
      r.value ((assignLayers granularity candidates true
        (scoreMatrix (entropyRows candidates.length r.length fun l =>
          entropy ((candId candidates l).toNat - 1))) [r.length]).getD i 0).toNat i
    else r.value (candidates.getLastD 0).toNat i

variable {operator : Operator α} {threshold : Nat} {reqs : List (Request layers ρ)}

variable {outputs : ∀ idx, LayerOutputs (layers idx)}

/-- The part of the channel that belongs to one request. -/
theorem slice_channel (computes : ∀ idx, Computes (operator _ _ _) (outputs idx))
    (multiple : 1 ≤ threshold) {candidates : List Int} (nonempty : candidates ≠ []) {N : Nat}
    (inRange : ∀ c ∈ candidates, InRange N c) (granularity : Granularity) {k : Nat}
    (hk : k < reqs.length) :
    slice (start (lengths reqs) k) reqs[k].length
        ((batchForward operator threshold reqs).channel candidates granularity N) =
      reqs[k].aifdRows candidates granularity (fun idx => reqs[k].entropyOf idx (outputs idx))
        (PurePrefill threshold reqs ∧ candidates.Nodup) := by
  have some_request : reqs ≠ [] := List.length_pos_iff.mp (by omega)
  have listed : k < (lengths reqs).length := by simpa [lengths] using hk
  have size : (lengths reqs)[k] = reqs[k].length := by simp [lengths]
  have bound := start_add_length_le listed
  rw [size] at bound
  rw [Forward.channel]
  by_cases selecting : PurePrefill threshold reqs ∧ candidates.Nodup
  · rw [if_pos ((complete_batchForward computes multiple some_request nonempty).mpr selecting),
      slice_map_range _ (show start (lengths reqs) k + reqs[k].length ≤
        (batchForward operator threshold reqs).numTokens from bound), Request.aifdRows]
    apply List.map_congr_left
    intro i member
    have inside := List.mem_range.mp member
    rw [if_pos selecting, row_batchForward _ hk inside]
    congr 2
    rw [Forward.layers,
      segmentation_batchForward computes multiple selecting.1 some_request nonempty inRange]
    have assigned := assignLayers_window
      (fun l => (batchForward operator threshold reqs).entropyAt (candId candidates l))
      (fun l t => reqs[k].entropyOf ((candId candidates l).toNat - 1)
        (outputs ((candId candidates l).toNat - 1)) t) lengths_positive listed nonempty granularity (fun l _ i inside => ?_) (size ▸ inside)
    · simp only [size] at assigned
      exact assigned
    · rw [Forward.entropyAt, measured_pure computes multiple selecting.1 some_request]
      exact getD_packRows reqs _ k hk (size ▸ inside) 0
  · rw [if_neg fun complete => selecting
        ((complete_batchForward computes multiple some_request nonempty).mp complete),
      value_batchForward, slice_packRows, Request.aifdRows]
    exact List.map_congr_left fun i _ => (if_neg selecting).symm

/-- Whether or not its hooks measure, a step emits. -/
theorem runForward_batch {e : Engine α ρ} {N : Nat} (live : Live e N) (ready : Ready e.state)
    (last : (N : Int) ∉ e.state.candidates)
    (computes : ∀ idx, Computes (operator _ _ _) (outputs idx)) (multiple : 1 ≤ threshold)
    (some_request : reqs ≠ []) :
    runForward e N (batchForward operator threshold reqs) =
      .done ⟨e.state.reset, (batchForward operator threshold reqs).auxOutputs e.auxHiddenStateLayers N ++
        [(batchForward operator threshold reqs).channel e.state.candidates e.state.granularity N]⟩ :=
  runForward_emits live ready _ last (segmented_batchForward computes multiple some_request _ N)
    (uniform_batchForward computes multiple some_request _)

end Channel

end DreamAifd
