import DreamAifd.PackedBatch

/-! Requests under exact causal attention. A zero query attends evenly and has the largest
entropy its position allows, so that all layers look alike and the second candidate is
selected; entropy missing in the first candidate moves the selection to the third. -/
namespace DreamAifd

open Averages FirstMin Segments Softmax

section Choices

variable {α : Type*} [Field α] [LinearOrder α] [IsStrictOrderedRing α] {L n : Nat}

variable {He : Nat → Nat → α} {c : Nat → α}

theorem average_score_level {l : Nat} (now : ∀ t < n, He l t = c t)
    (before : ∀ t < n, He (l - 1) t = c t) :
    average n (fun t => score He l (0 + t)) = average n c :=
  average_congr fun t inside => by
    rw [Nat.zero_add, score, now t inside, before t inside, sub_self, abs_zero, add_zero]

/-- Among layers of equal entropy the first that can be chosen is the second candidate. -/
theorem sampleChoice_level (many : 2 ≤ L) (positive : 0 < n)
    (level : ∀ l < L, ∀ t < n, He l t = c t) :
    sampleChoice true (scoreMatrix (entropyRows L n He)) 0 n = 1 := by
  rw [sampleChoice_iff many (Nat.zero_add n).le positive]
  have same (l : Nat) (member : l ∈ region L) :
      average n (fun t => score He l (0 + t)) = average n c :=
    average_score_level (level l member.2) (level (l - 1) ((Nat.sub_le l 1).trans_lt member.2))
  have second : 1 ∈ region L := ⟨le_rfl, by omega⟩
  refine ⟨second, fun j member => ?_, fun j member less => absurd member.1 (by omega)⟩
  rw [same 1 second, same j member]

/-- With another entropy in the first candidate, the second pays for the change. -/
theorem sampleChoice_changed (many : 3 ≤ L) (level : ∀ l < L, 1 ≤ l → ∀ t < n, He l t = c t)
    {k : Nat} (hk : k < n) (different : He 0 k ≠ c k) :
    sampleChoice true (scoreMatrix (entropyRows L n He)) 0 n = 2 := by
  rw [sampleChoice_iff (by omega) (Nat.zero_add n).le (Nat.zero_lt_of_lt hk)]
  have later (l : Nat) (bound : l < L) (past : 2 ≤ l) :
      average n (fun t => score He l (0 + t)) = average n c :=
    average_score_level (level l bound (by omega)) (level (l - 1) (by omega) (by omega))
  have third := later 2 (by omega) le_rfl
  have second : average n c < average n (fun t => score He 1 (0 + t)) := by
    have charged (t : Nat) (inside : t < n) : score He 1 (0 + t) = c t + |c t - He 0 t| := by
      rw [Nat.zero_add, score, level 1 (by omega) le_rfl t inside]
    refine average_lt (fun t inside => ?_) hk ?_
    · rw [charged t inside]
      exact le_add_of_nonneg_right (abs_nonneg _)
    · rw [charged k hk]
      exact lt_add_of_pos_right _ (abs_pos.mpr (sub_ne_zero.mpr different.symm))
  refine ⟨⟨by omega, by omega⟩, fun j member => ?_, fun j member less => ?_⟩
  · rcases Nat.lt_or_ge j 2 with first | past
    · obtain rfl : j = 1 := by have := member.1; omega
      exact third.trans_le second.le
    · exact (third.trans (later j member.2 past).symm).le
  · obtain rfl : j = 1 := by have := member.1; omega
    exact third.trans_lt second

end Choices

theorem headMean_const {heads : Nat} (some_head : 0 < heads) (x : ℝ) :
    headMean (fun _ : Fin heads => x) = x := by
  rw [headMean, Finset.sum_const, Finset.card_univ, Fintype.card_fin, nsmul_eq_mul, mul_comm]
  exact mul_div_cancel_right₀ x (Nat.cast_ne_zero.mpr some_head.ne')

theorem headMean_lt {heads : Nat} (some_head : 0 < heads) {entropy : Fin heads → ℝ} {bound : ℝ}
    (below : ∀ h, entropy h < bound) : headMean entropy < bound := by
  have held : (Finset.univ : Finset (Fin heads)).Nonempty := ⟨⟨0, some_head⟩, Finset.mem_univ _⟩
  rw [← headMean_const some_head bound, headMean, headMean]
  exact div_lt_div_of_pos_right (Finset.sum_lt_sum_of_nonempty held fun h _ => below h)
    (Nat.cast_pos.mpr some_head)

section Samples

variable {α ρ : Type*} [Field α] [LinearOrder α] {layers : Nat → AttnModule α}

/-- In sample granularity all rows of a request come from one layer. -/
def Request.sampleLayer (r : Request layers ρ) (candidates : List Int) (entropy : Nat → Nat → α)
    (selecting : Prop) [Decidable selecting] : Int :=
  if selecting then
    candId candidates (sampleChoice true (scoreMatrix (entropyRows candidates.length r.length fun l =>
      entropy ((candId candidates l).toNat - 1))) 0 r.length)
  else candidates.getLastD 0

theorem Request.aifdRows_sample [Add ρ] (r : Request layers ρ) (candidates : List Int)
    (entropy : Nat → Nat → α) (selecting : Prop) [Decidable selecting] :
    r.aifdRows candidates .sample entropy selecting = (List.range r.length).map fun i =>
      r.value (r.sampleLayer candidates entropy selecting).toNat i := by
  apply List.map_congr_left
  intro i member
  have inside := List.mem_range.mp member
  rw [sampleLayer]
  split
  · simp [assignLayers, forSegments, inside]
  · rfl

theorem candId_last {candidates : List Int} (nonempty : candidates ≠ []) :
    candId candidates (candidates.length - 1) = candidates.getLastD 0 := by
  have bound : candidates.length - 1 < candidates.length :=
    Nat.sub_lt (List.length_pos_iff.mpr nonempty) Nat.one_pos
  rw [candId, List.getD_eq_getElem _ _ bound, List.getLastD_eq_getLast?, List.getLast?_eq_getElem?,
    List.getElem?_eq_getElem bound]
  rfl

theorem Request.sampleLayer_mem (r : Request layers ρ) {candidates : List Int}
    (nonempty : candidates ≠ []) (entropy : Nat → Nat → α) (selecting : Prop) [Decidable selecting] :
    r.sampleLayer candidates entropy selecting ∈ candidates := by
  have some_layer := List.length_pos_iff.mpr nonempty
  rw [sampleLayer]
  split
  · refine candId_mem ((sampleChoice_lt (fun none => ?_) ..).trans_eq
      (length_scoreMatrix_entropyRows ..))
    have size := length_scoreMatrix_entropyRows candidates.length r.length fun l =>
      entropy ((candId candidates l).toNat - 1)
    rw [none] at size
    exact some_layer.ne size
  · rw [← candId_last nonempty]
    exact candId_mem (Nat.sub_lt some_layer Nat.one_pos)

/-- Without a selection, or without a choice, the highest candidate serves the request. -/
theorem Request.sampleLayer_last (r : Request layers ρ) {candidates : List Int}
    (nonempty : candidates ≠ []) (entropy : Nat → Nat → α) {selecting : Prop} [Decidable selecting]
    (forced : selecting → candidates.length ≤ 2) :
    r.sampleLayer candidates entropy selecting = candidates.getLastD 0 := by
  have some_layer := List.length_pos_iff.mpr nonempty
  rw [sampleLayer]
  split
  next selects =>
    rw [← candId_last nonempty]
    refine congrArg (candId candidates) ?_
    by_cases single : candidates.length = 1
    · rw [single]
      exact sampleChoice_single ..
    · have pair : candidates.length = 2 := by
        have := forced selects
        omega
      have second : 1 ∈ region 2 := ⟨le_rfl, Nat.one_lt_two⟩
      rw [pair]
      exact (sampleChoice_iff le_rfl (Nat.zero_add _).le r.positive).mpr
        (isFirstMin_of_only second (region_only le_rfl second))
  next => rfl

end Samples

section Prompts

variable {α ρ : Type*}

structure Position (layers : Nat → AttnModule α) (ρ : Type*) where
  query : ∀ idx, Fin ((layers idx).numHeads * (layers idx).headSize) → α
  key : ∀ idx, Fin ((layers idx).numKvHeads * (layers idx).headSize) → α
  hidden : Nat → ρ
  residual : Nat → ρ

abbrev Prompt (layers : Nat → AttnModule α) (ρ : Type*) := Nat → Position layers ρ

variable {layers : Nat → AttnModule α}

def Position.value [Add ρ] (position : Position layers ρ) (layerIdx : Nat) : ρ :=
  if layerIdx = 0 then position.hidden layerIdx
  else position.hidden layerIdx + position.residual layerIdx

/-- The request for `n` tokens from `first` on. -/
def Prompt.window (prompt : Prompt layers ρ) (first n : Nat) (positive : 0 < n) : Request layers ρ where
  length := n
  positive := positive
  query idx t := (prompt (first + t)).query idx
  key idx t := (prompt (first + t)).key idx
  hidden layerIdx t := (prompt (first + t)).hidden layerIdx
  residual layerIdx t := (prompt (first + t)).residual layerIdx

theorem Prompt.value_window [Add ρ] (prompt : Prompt layers ρ) {first n : Nat} (positive : 0 < n)
    (layerIdx t : Nat) :
    (prompt.window first n positive).value layerIdx t = (prompt (first + t)).value layerIdx := rfl

/-- A window is assigned by what it contains. -/
theorem sampleLayer_window [Field α] [LinearOrder α] {prompt prompt' : Prompt layers ρ}
    {first n : Nat} (positive : 0 < n) (same : ∀ t < n, prompt (first + t) = prompt' (first + t))
    (candidates : List Int) (outputs : ∀ idx, LayerOutputs (layers idx)) (selecting : Prop)
    [Decidable selecting] :
    let r := prompt.window first n positive
    let r' := prompt'.window first n positive
    r.sampleLayer candidates (fun idx => r.entropyOf idx (outputs idx)) selecting =
      r'.sampleLayer candidates (fun idx => r'.entropyOf idx (outputs idx)) selecting := by
  intro r r'
  have tokens (idx : Nat) : r.tokens idx = r'.tokens idx := by
    apply List.map_congr_left
    intro t member
    simp only [r, r', Prompt.window, same t (List.mem_range.mp member)]
  have entropy (idx t : Nat) (inside : t < n) :
      r.entropyOf idx (outputs idx) t = r'.entropyOf idx (outputs idx) t := by
    rw [Request.entropyOf, Request.entropyOf, tokens]
    simp only [r, r', Prompt.window, same t inside]
  have rows : (entropyRows candidates.length n fun l =>
      r.entropyOf ((candId candidates l).toNat - 1) (outputs ((candId candidates l).toNat - 1))) =
      entropyRows candidates.length n fun l =>
        r'.entropyOf ((candId candidates l).toNat - 1) (outputs ((candId candidates l).toNat - 1)) :=
    List.map_congr_left fun l _ => List.map_congr_left fun t member =>
      entropy _ t (List.mem_range.mp member)
  rw [Request.sampleLayer, Request.sampleLayer]
  exact congrArg (fun rows => if selecting then
    candId candidates (sampleChoice true (scoreMatrix rows) 0 n) else candidates.getLastD 0) rows

def evenPosition [Zero α] [Zero ρ] (layers : Nat → AttnModule α) (row : Nat → ρ) :
    Position layers ρ := ⟨fun _ => 0, fun _ => 0, row, fun _ => 0⟩

end Prompts

section Causal

variable {layers : Nat → AttnModule ℝ} {ρ : Type*} {idx : Nat}

theorem Request.getD_tokens (r : Request layers ρ) (idx : Nat) {t : Nat} (inside : t < r.length) :
    (r.tokens idx).getD t 0 = (viewHeads (r.query idx t), viewHeads (r.key idx t)) := by
  simp [tokens, inside]

variable {kvHead : Fin (layers idx).numHeads → Fin (layers idx).numKvHeads} {r : Request layers ρ} {t : Nat}

/-- Under exact attention a token's entropy is that of its attention weights. -/
theorem entropyOf_causal (inside : t < r.length) : r.entropyOf idx (causalOutputs kvHead) t =
    headMean fun h => entropy (t + 1) (logits kvHead (layers idx).scale (r.tokens idx) t h) := by
  have query : viewHeads (r.query idx t) = ((r.tokens idx).getD t 0).1 := by
    rw [r.getD_tokens idx inside]
  rw [Request.entropyOf, query]
  exact congrArg headMean (funext fun h => headEntropy_attended ..)

/-- A zero query attends evenly. -/
theorem entropyOf_zero (some_head : 0 < (layers idx).numHeads) (inside : t < r.length)
    (zero : r.query idx t = 0) :
    r.entropyOf idx (causalOutputs kvHead) t = Real.log (t + 1 : Nat) := by
  have even (h : Fin (layers idx).numHeads) :
      entropy (t + 1) (logits kvHead (layers idx).scale (r.tokens idx) t h) =
        Real.log (t + 1 : Nat) := by
    rw [← entropy_zero]
    apply entropy_congr
    intro j _
    rw [logits, r.getD_tokens idx inside, zero]
    simp [viewHeads]
  rw [entropyOf_causal inside]
  simp only [even]
  exact headMean_const some_head _

theorem entropyOf_lt (some_head : 0 < (layers idx).numHeads) (inside : t < r.length) {i j : Nat}
    (hi : i ≤ t) (hj : j ≤ t) (different : ∀ h,
      logits kvHead (layers idx).scale (r.tokens idx) t h i ≠
        logits kvHead (layers idx).scale (r.tokens idx) t h j) :
    r.entropyOf idx (causalOutputs kvHead) t < Real.log (t + 1 : Nat) := by
  rw [entropyOf_causal inside]
  exact headMean_lt some_head fun h =>
    entropy_lt_log (Nat.lt_succ_of_le hi) (Nat.lt_succ_of_le hj) (different h)

theorem sampleLayer_even (r : Request layers ρ) (some_head : ∀ idx, 0 < (layers idx).numHeads)
    {kvHead : ∀ idx, Fin (layers idx).numHeads → Fin (layers idx).numKvHeads}
    (zero : ∀ idx, ∀ t < r.length, r.query idx t = 0) {candidates : List Int}
    (many : 2 ≤ candidates.length) {selecting : Prop} [Decidable selecting] (selects : selecting) :
    r.sampleLayer candidates (fun idx => r.entropyOf idx (causalOutputs (kvHead idx))) selecting =
      candId candidates 1 := by
  rw [Request.sampleLayer, if_pos selects]
  exact congrArg (candId candidates) (sampleChoice_level many r.positive fun l _ t inside =>
    entropyOf_zero (some_head _) inside (zero _ t inside))

end Causal

end DreamAifd
