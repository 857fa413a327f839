import DreamAifd.AscendMetadata
import DreamAifd.Softmax

/-! What the development assumes of the fused attention operator on packed segments: that it
treats each segment on its own, or further that it computes causal softmax attention. -/
namespace DreamAifd

open Averages Segments Softmax

variable {α : Type*}

/-- Layouts in which the operator returns its log-sum-exp. With as many tokens as heads the
two have one shape, and the hook reads it as the first. -/
def LseLayout (lse : Tensor α) (numTokens numHeads : Nat) (value : Nat → Nat → α) : Prop :=
  (lse.shape = [numHeads, numTokens, 1] ∧
      ∀ t < numTokens, ∀ h < numHeads, lse.entry [h, t, 0] = value t h) ∨
    (lse.shape = [numTokens, numHeads, 1] ∧ numTokens ≠ numHeads ∧
      ∀ t < numTokens, ∀ h < numHeads, lse.entry [t, h, 0] = value t h)

theorem asTn_layout {lse : Tensor α} {numTokens numHeads : Nat} {value : Nat → Nat → α}
    (layout : LseLayout lse numTokens numHeads value) :
    ∃ x, asTn lse numTokens numHeads = some x ∧ ∀ t < numTokens, ∀ h < numHeads, x t h = value t h := by
  obtain ⟨shape, entry⟩ := lse
  rcases layout with ⟨rfl, entries⟩ | ⟨rfl, different, entries⟩
  · exact ⟨_, asTn_headMajor numTokens numHeads entry, entries⟩
  · exact ⟨_, asTn_tokenMajor entry different, entries⟩

abbrev TokenRows (α : Type*) (heads kvHeads headDim : Nat) :=
  HeadRow α heads headDim × HeadRow α kvHeads headDim

variable {heads kvHeads headDim : Nat}

/-- The arguments with which the hook calls the operator on packed segments. -/
def packedArgs (scale : α) (segments : List (List (TokenRows α heads kvHeads headDim))) :
    FiaArgs α heads kvHeads headDim where
  query := segments.flatten.map (·.1)
  key := segments.flatten.map (·.2)
  value := segments.flatten.map (·.2)
  attenMask := splitfuseAttnMask
  actualSeqLengths := cumulative 0 (segments.map List.length)
  actualSeqLengthsKv := cumulative 0 (segments.map List.length)
  scale := scale
  sparseMode := 3
  preTokens := swaIntMax
  nextTokens := swaIntMax

structure SegmentOutputs (α : Type*) (heads kvHeads headDim : Nat) where
  out : α → List (TokenRows α heads kvHeads headDim) → Nat → HeadRow α heads headDim
  lse : α → List (TokenRows α heads kvHeads headDim) → Nat → Fin heads → α

/-- The operator returns on packed segments, with the given outputs for every token of every
segment. -/
def Computes (operator : FusedInferAttentionScore α heads kvHeads headDim)
    (outputs : SegmentOutputs α heads kvHeads headDim) : Prop :=
  ∀ scale segments, segments ≠ [] → (∀ s ∈ segments, s ≠ []) →
    ∃ output value, operator (packedArgs scale segments) = some output ∧
      LseLayout output.lse segments.flatten.length heads value ∧
      ∀ k (hk : k < segments.length), ∀ i < segments[k].length,
        output.out (start (segments.map List.length) k + i) = outputs.out scale segments[k] i ∧
          ∀ h : Fin heads, value (start (segments.map List.length) k + i) h =
            outputs.lse scale segments[k] i h

/-- The outputs for a token are a function of its own segment. -/
def SegmentIndependent (operator : FusedInferAttentionScore α heads kvHeads headDim) : Prop :=
  ∃ outputs, Computes operator outputs

abbrev Operator (α : Type*) :=
  ∀ heads kvHeads headDim : Nat, FusedInferAttentionScore α heads kvHeads headDim

/-! Causal attention of one segment over the reals, every head attending with the keys of its
group. -/

section Causal

variable (kvHead : Fin heads → Fin kvHeads) (scale : ℝ)
  (tokens : List (TokenRows ℝ heads kvHeads headDim))

def logits (i : Nat) (h : Fin heads) (j : Nat) : ℝ :=
  (∑ d, (tokens.getD i 0).1 h d * (tokens.getD j 0).2 (kvHead h) d) * scale

noncomputable def attended (i : Nat) : HeadRow ℝ heads headDim := fun h d =>
  ∑ j ∈ Finset.range (i + 1),
    softmax (i + 1) (logits kvHead scale tokens i h) j * (tokens.getD j 0).2 (kvHead h) d

noncomputable def attendedLse (i : Nat) (h : Fin heads) : ℝ :=
  logSumExp (i + 1) (logits kvHead scale tokens i h)

/-- The hook's formula yields the entropy of the attention weights. -/
theorem headEntropy_attended (i : Nat) (h : Fin heads) :
    headEntropy scale (tokens.getD i 0).1 (attended kvHead scale tokens i)
        (attendedLse kvHead scale tokens i) h =
      entropy (i + 1) (logits kvHead scale tokens i h) := by
  rw [entropy_eq (Nat.succ_pos i), headEntropy, attendedLse]
  congr 1
  simp only [attended, Finset.mul_sum]
  rw [Finset.sum_comm, Finset.sum_mul]
  apply Finset.sum_congr rfl
  intro j _
  rw [logits, Finset.sum_mul, Finset.sum_mul, Finset.mul_sum]
  apply Finset.sum_congr rfl
  intro d _
  ring

end Causal

noncomputable def causalOutputs (kvHead : Fin heads → Fin kvHeads) :
    SegmentOutputs ℝ heads kvHeads headDim := ⟨attended kvHead, attendedLse kvHead⟩

/-- The operator computes causal softmax attention on every segment. -/
def ComputesAttention (operator : FusedInferAttentionScore ℝ heads kvHeads headDim) : Prop :=
  ∃ kvHead, Computes operator (causalOutputs kvHead)

theorem ComputesAttention.segmentIndependent
    {operator : FusedInferAttentionScore ℝ heads kvHeads headDim}
    (exact : ComputesAttention operator) : SegmentIndependent operator := by
  obtain ⟨kvHead, computes⟩ := exact
  exact ⟨_, computes⟩

/-- Start of the segment that holds a token, read off the segment ends. -/
def segmentStart (offset : Nat) (ends : List Nat) (t : Nat) : Nat :=
  (ends.takeWhile (· ≤ t)).getLastD offset

theorem segmentStart_cumulative (offset : Nat) (lengths : List Nat) (k : Nat)
    (hk : k < lengths.length) {i : Nat} (inside : i < lengths[k]) :
    segmentStart offset (cumulative offset lengths) (offset + (start lengths k + i)) =
      offset + start lengths k := by
  induction lengths generalizing offset k with
  | nil => simp at hk
  | cons n lengths ih =>
    cases k with
    | zero =>
      have beyond : ¬ offset + n ≤ offset + (start (n :: lengths) 0 + i) := by
        simp only [List.getElem_cons_zero] at inside
        simp only [start, List.take_zero, List.sum_nil]
        omega
      rw [segmentStart, cumulative, List.takeWhile_cons, if_neg (by simpa using beyond)]
      simp [start]
    | succ k =>
      have tail := ih (offset + n) k (by simpa using hk) (by simpa using inside)
      have shift : offset + (start (n :: lengths) (k + 1) + i) = offset + n + (start lengths k + i) := by
        simp only [start, List.take_succ_cons, List.sum_cons]
        omega
      have passed : offset + n ≤ offset + n + (start lengths k + i) := Nat.le_add_right _ _
      rw [shift, segmentStart, cumulative, List.takeWhile_cons, if_pos (decide_eq_true passed),
        List.getLastD_cons]
      rw [segmentStart] at tail
      rw [tail]
      simp only [start, List.take_succ_cons, List.sum_cons]
      omega

/-- An operator that computes causal attention on the segments its arguments delimit. -/
noncomputable def tndAttention (kvHead : Fin heads → Fin kvHeads) :
    FusedInferAttentionScore ℝ heads kvHeads headDim := fun args =>
  let first := segmentStart 0 args.actualSeqLengths
  let tokens (t : Nat) := (args.query.zip args.key).drop (first t)
  some {
    out := fun t => attended kvHead args.scale (tokens t) (t - first t)
    lse := ⟨[heads, args.query.length, 1], fun index =>
      if bound : index.getD 0 0 < heads then
        attendedLse kvHead args.scale (tokens (index.getD 1 0))
          (index.getD 1 0 - first (index.getD 1 0)) ⟨index.getD 0 0, bound⟩
      else 0⟩ }

theorem attended_congr (kvHead : Fin heads → Fin kvHeads) (scale : ℝ)
    {tokens others : List (TokenRows ℝ heads kvHeads headDim)} {i : Nat}
    (same : ∀ j ≤ i, tokens.getD j 0 = others.getD j 0) :
    attended kvHead scale tokens i = attended kvHead scale others i ∧
      attendedLse kvHead scale tokens i = attendedLse kvHead scale others i := by
  have equal (h : Fin heads) : ∀ j ∈ Finset.range (i + 1),
      logits kvHead scale tokens i h j = logits kvHead scale others i h j := by
    intro j member
    rw [logits, logits, same i le_rfl, same j (Nat.lt_succ_iff.mp (Finset.mem_range.mp member))]
  have total (h : Fin heads) : partition (i + 1) (logits kvHead scale tokens i h) =
      partition (i + 1) (logits kvHead scale others i h) :=
    Finset.sum_congr rfl fun j member => by rw [equal h j member]
  constructor
  · funext h d
    apply Finset.sum_congr rfl
    intro j member
    rw [softmax, softmax, total h, equal h j member,
      same j (Nat.lt_succ_iff.mp (Finset.mem_range.mp member))]
  · funext h
    rw [attendedLse, attendedLse, logSumExp, logSumExp, total h]

theorem tndAttention_packed (kvHead : Fin heads → Fin kvHeads) (scale : ℝ)
    (segments : List (List (TokenRows ℝ heads kvHeads headDim))) :
    let first := segmentStart 0 (cumulative 0 (segments.map List.length))
    tndAttention kvHead (packedArgs scale segments) = some {
      out := fun t => attended kvHead scale (segments.flatten.drop (first t)) (t - first t)
      lse := ⟨[heads, segments.flatten.length, 1], fun index =>
        if bound : index.getD 0 0 < heads then
          attendedLse kvHead scale (segments.flatten.drop (first (index.getD 1 0)))
            (index.getD 1 0 - first (index.getD 1 0)) ⟨index.getD 0 0, bound⟩
        else 0⟩ } := by
  have rows : (segments.flatten.map (·.1)).zip (segments.flatten.map (·.2)) = segments.flatten :=
    (List.zip_of_prod rfl rfl).symm
  simp only [tndAttention, packedArgs, rows, List.length_map]

theorem computes_tndAttention (kvHead : Fin heads → Fin kvHeads) :
    ComputesAttention (@tndAttention heads kvHeads headDim kvHead) := by
  refine ⟨kvHead, fun scale segments _ _ => ?_⟩
  set first := segmentStart 0 (cumulative 0 (segments.map List.length)) with hfirst
  refine ⟨_, fun t h => if bound : h < heads then
    attendedLse kvHead scale (segments.flatten.drop (first t)) (t - first t) ⟨h, bound⟩ else 0,
    tndAttention_packed kvHead scale segments, .inl ⟨rfl, fun t _ h _ => rfl⟩, fun k hk i inside => ?_⟩
  have here : first (start (segments.map List.length) k + i) = start (segments.map List.length) k := by
    have listed : k < (segments.map List.length).length := by simpa using hk
    simpa using segmentStart_cumulative 0 (segments.map List.length) k listed
      (show i < (segments.map List.length)[k] by simpa using inside)
  have shared : ∀ j ≤ i, (segments.flatten.drop (start (segments.map List.length) k)).getD j 0 =
      segments[k].getD j 0 := fun j before => by
    rw [start, List.drop_sum_flatten, List.drop_eq_getElem_cons hk, List.flatten_cons,
      List.getD_append _ _ _ _ (by omega)]
  have own := attended_congr kvHead scale shared
  simp only [← hfirst, here, Nat.add_sub_cancel_left, own, Fin.is_lt, dite_true, Fin.eta, causalOutputs,
    implies_true, and_self]

/-- Key head of a query head when the heads divide evenly into groups. -/
def groupHead (some_kv : 0 < kvHeads) (h : Fin heads) : Fin kvHeads :=
  ⟨h * kvHeads / heads, Nat.div_lt_of_lt_mul (Nat.mul_lt_mul_of_pos_right h.is_lt some_kv)⟩

noncomputable def causalOperator : Operator ℝ := fun _ kvHeads _ =>
  if some_kv : 0 < kvHeads then tndAttention (groupHead some_kv) else fun _ => none

theorem computes_causalOperator (some_kv : 0 < kvHeads) :
    ComputesAttention (causalOperator heads kvHeads headDim) := by
  rw [causalOperator, dif_pos some_kv]
  exact computes_tndAttention _

end DreamAifd
