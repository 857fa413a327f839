import DreamAifd.Assignment
import DreamAifd.ScriptedForward

/-! Tensor parallelism. Each rank holds the same number of heads and its hooks average over
those alone; nothing is exchanged between ranks before the selection. -/
namespace DreamAifd.TensorParallel

open Averages FirstMin Segments

variable {α ρ : Type*} [Field α]

/-- Forward of a rank that holds `heads` heads from `firstHead` on, under the entropies of
every decoder layer, token and head. -/
def rankForward (entropy : Nat → Nat → Nat → α) (heads firstHead : Nat) (seqLengths : List Nat)
    (rows : Nat → Nat → ρ) : Forward α ρ :=
  scriptedForward heads seqLengths.sum seqLengths
    (fun idx => some fun t h => entropy idx t (firstHead + h)) rows

def rankMean (entropy : Nat → Nat → Nat → α) (heads firstHead idx t : Nat) : α :=
  average heads fun h => entropy idx t (firstHead + h)

theorem headMean_rank (entropy : Nat → Nat → Nat → α) (heads firstHead idx t : Nat) :
    headMean (fun h : Fin heads => entropy idx t (firstHead + h)) =
      rankMean entropy heads firstHead idx t := by
  rw [headMean, rankMean, average, Finset.sum_range]

/-- The mean over all heads is the mean of the ranks' means. -/
theorem rankMean_all [CharZero α] (entropy : Nat → Nat → Nat → α) {R n : Nat} (heads : 0 < n)
    (idx t : Nat) :
    rankMean entropy (R * n) 0 idx t = average R fun rank => rankMean entropy n (rank * n) idx t := by
  have nonzero : (n : α) ≠ 0 := Nat.cast_ne_zero.mpr heads.ne'
  simp only [rankMean, average, Nat.zero_add]
  rw [sum_blocks, ← Finset.sum_div, div_div, Nat.cast_mul, mul_comm (n : α)]

/-! Entropies on which the first rank and the whole model disagree. -/

/-- Entropy of the heads of the first rank, by candidate position: rising. -/
def firstRank (l : Nat) : α :=
  match l with
  | 0 => 0
  | 1 => 0
  | 2 => 1
  | _ => 100

/-- Entropy of all other heads: the second candidate stands out. -/
def otherRanks (l : Nat) : α :=
  match l with
  | 0 => 0
  | 1 => 4
  | 2 => 0
  | _ => 100

def splitEntropy (candidates : List Int) (heads idx _t h : Nat) : α :=
  let l := candidates.idxOf ((idx : Int) + 1)
  if h < heads then firstRank l else otherRanks l

theorem splitEntropy_position {candidates : List Int} (distinct : candidates.Nodup) {N : Nat}
    (inRange : ∀ c ∈ candidates, InRange N c) {l : Nat} (bound : l < candidates.length)
    (heads t h : Nat) :
    (splitEntropy candidates heads ((candId candidates l).toNat - 1) t h : α) =
      if h < heads then firstRank l else otherRanks l := by
  have member := candId_mem bound
  obtain ⟨low, _⟩ := inRange _ member
  have same : (((candId candidates l).toNat - 1 : Nat) : Int) + 1 = candId candidates l := by omega
  have position : candidates.idxOf (candId candidates l) = l := by
    rw [candId, List.getD_eq_getElem _ _ bound]
    exact distinct.idxOf_getElem l bound
  rw [splitEntropy, same, position]

theorem rankMean_first [CharZero α] {candidates : List Int} (distinct : candidates.Nodup) {N : Nat}
    (inRange : ∀ c ∈ candidates, InRange N c) {heads : Nat} (positive : 0 < heads) {l : Nat}
    (bound : l < candidates.length) (t : Nat) :
    rankMean (splitEntropy (α := α) candidates heads) heads 0 ((candId candidates l).toNat - 1) t =
      firstRank l := by
  rw [rankMean, ← average_const positive (firstRank l)]
  apply average_congr
  intro h less
  rw [splitEntropy_position distinct inRange bound, if_pos (by omega)]

/-- Mean over all heads, with `others` ranks behind the first. -/
def splitMean (others l : Nat) : α := (firstRank l + others * otherRanks l) / (others + 1)

theorem rankMean_split [CharZero α] {candidates : List Int} (distinct : candidates.Nodup) {N : Nat}
    (inRange : ∀ c ∈ candidates, InRange N c) {heads : Nat} (positive : 0 < heads) (others : Nat)
    {l : Nat} (bound : l < candidates.length) (t : Nat) :
    rankMean (splitEntropy (α := α) candidates heads) ((others + 1) * heads) 0
        ((candId candidates l).toNat - 1) t =
      splitMean others l := by
  have later (rank : Nat) : rankMean (splitEntropy (α := α) candidates heads) heads
      ((rank + 1) * heads) ((candId candidates l).toNat - 1) t = otherRanks l := by
    rw [rankMean, ← average_const positive (otherRanks l)]
    apply average_congr
    intro h _
    rw [splitEntropy_position distinct inRange bound, if_neg]
    have : heads ≤ (rank + 1) * heads := Nat.le_mul_of_pos_left heads (Nat.succ_pos rank)
    omega
  rw [rankMean_all _ positive, average, Finset.sum_range_succ', Nat.zero_mul,
    rankMean_first distinct inRange positive bound]
  simp only [later, Finset.sum_const, Finset.card_range, nsmul_eq_mul, Nat.cast_succ]
  rw [splitMean, add_comm]

variable [LinearOrder α]

def rankLayers (entropy : Nat → Nat → Nat → α) (heads firstHead : Nat) (candidates : List Int)
    (granularity : Granularity) (seqLengths : List Nat) : List Int :=
  assignLayers granularity candidates true
    (scoreMatrix (entropyRows candidates.length seqLengths.sum fun l =>
      rankMean entropy heads firstHead ((candId candidates l).toNat - 1))) seqLengths

/-- They are the ones that rank's forward assigns. -/
theorem layers_rankForward {seqLengths : List Nat} (many : 1 < seqLengths.sum)
    (entropy : Nat → Nat → Nat → α) (heads firstHead : Nat) (rows : Nat → Nat → ρ)
    {candidates : List Int} {numLayers : Nat} (filled : candidates ≠ [])
    (inRange : ∀ c ∈ candidates, InRange numLayers c) (granularity : Granularity) :
    (rankForward entropy heads firstHead seqLengths rows).layers candidates granularity numLayers =
      rankLayers entropy heads firstHead candidates granularity seqLengths := by
  rw [rankForward, layers_scriptedForward many rfl _ rows filled inRange, rankLayers]
  simp only [headMean_rank]

theorem firstRank_nonneg [IsStrictOrderedRing α] (l : Nat) : (0 : α) ≤ firstRank l := by
  unfold firstRank
  split <;> norm_num

theorem firstRank_chosen {L : Nat} (many : 2 < L) [IsStrictOrderedRing α] :
    IsFirstMin (fun l => (firstRank l : α) + |firstRank l - firstRank (l - 1)|) (region L) 1 := by
  refine ⟨⟨le_rfl, by omega⟩, fun j hj => ?_, fun j hj less => ?_⟩
  · have := hj.1
    have scores : (firstRank 1 : α) + |firstRank 1 - firstRank 0| = 0 := by norm_num [firstRank]
    rw [scores]
    exact add_nonneg (firstRank_nonneg j) (abs_nonneg _)
  · have := hj.1
    omega

theorem splitMean_second [IsStrictOrderedRing α] {others : Nat} (several : 0 < others) :
    splitMean others 2 + |(splitMean others 2 : α) - splitMean others (2 - 1)| <
      splitMean others 1 + |(splitMean others 1 : α) - splitMean others (1 - 1)| := by
  have ranks : (1 : α) ≤ others := by exact_mod_cast several
  have positive : (0 : α) < others + 1 := by linarith
  have zero : (splitMean others 0 : α) = 0 := by simp [splitMean, firstRank, otherRanks]
  have first : (0 : α) < splitMean others 1 := by
    simp only [splitMean, firstRank, otherRanks]
    exact div_pos (by linarith) positive
  have below : (splitMean others 2 : α) ≤ splitMean others 1 := by
    simp only [splitMean, firstRank, otherRanks]
    exact div_le_div_of_nonneg_right (by linarith) positive.le
  rw [show 2 - 1 = 1 from rfl, Nat.sub_self, zero, sub_zero, abs_of_pos first,
    abs_of_nonpos (sub_nonpos.mpr below)]
  linarith

/-- On the split entropies the first rank sees its own first minimum, the whole model another. -/
theorem splitEntropy_differs [IsStrictOrderedRing α] {others heads : Nat} (several : 0 < others) (someHead : 0 < heads)
    {candidates : List Int} (distinct : candidates.Nodup) {numLayers : Nat}
    (inRange : ∀ c ∈ candidates, InRange numLayers c) (choice : 2 < candidates.length) {first n best : Nat}
    (positive : 0 < n)
    (rank : IsFirstMin (unitScore (fun l => rankMean (splitEntropy (α := α) candidates heads) heads (0 * heads)
      ((candId candidates l).toNat - 1)) first n) (region candidates.length) best)
    (whole : IsFirstMin (unitScore (fun l => rankMean (splitEntropy (α := α) candidates heads) ((others + 1) * heads) 0
      ((candId candidates l).toNat - 1)) first n) (region candidates.length) best) : False := by
  rw [isFirstMin_congr fun l inside => unitScore_const (c := firstRank)
    (fun t => by
      rw [Nat.zero_mul]
      exact rankMean_first distinct inRange someHead inside.2 t)
    (fun t => by
      rw [Nat.zero_mul]
      exact rankMean_first distinct inRange someHead (by have := inside.2; omega) t) positive]
    at rank
  obtain rfl := rank.unique (firstRank_chosen choice)
  have beaten := whole.le 2 ⟨by omega, by omega⟩
  have mean {l : Nat} (bound : l < candidates.length) :=
    rankMean_split (α := α) distinct inRange someHead others bound
  rw [unitScore_const (c := splitMean others) (mean (by omega)) (mean (by omega)) positive,
    unitScore_const (c := splitMean others) (mean (by omega)) (mean (by omega)) positive] at beaten
  exact absurd beaten (not_le.mpr (splitMean_second several))

/-- Every rank selects what one rank with all heads would select, on all entropies, exactly
when there is one rank only or the selection has a single layer to choose. -/
theorem rankForward_layers_iff [IsStrictOrderedRing α] {ranks heads : Nat} (someRank : 0 < ranks)
    (someHead : 0 < heads) {candidates : List Int} (filled : candidates ≠ [])
    (distinct : candidates.Nodup) {numLayers : Nat}
    (inRange : ∀ c ∈ candidates, InRange numLayers c) {seqLengths : List Nat}
    (nonempty : ∀ n ∈ seqLengths, 0 < n) (many : 1 < seqLengths.sum) (granularity : Granularity)
    (rows : Nat → Nat → ρ) :
    (∀ (entropy : Nat → Nat → Nat → α) (rank : Nat), rank < ranks →
      (rankForward entropy heads (rank * heads) seqLengths rows).layers
          candidates granularity numLayers =
        (rankForward entropy (ranks * heads) 0 seqLengths rows).layers
          candidates granularity numLayers) ↔
      ranks = 1 ∨ candidates.length ≤ 2 := by
  simp only [layers_rankForward many _ _ _ rows filled inRange, rankLayers,
    assignLayers_agree_iff distinct filled nonempty]
  constructor
  · intro agree
    by_contra generic
    rw [not_or] at generic
    obtain ⟨others, rfl⟩ := Nat.exists_eq_add_of_le' someRank
    have length : 0 < (units granularity seqLengths).length := by
      rw [List.length_pos_iff]
      intro none
      have total := sum_units granularity seqLengths
      rw [none, List.sum_nil] at total
      omega
    have positive := units_pos nonempty _ (List.getElem_mem length)
    obtain ⟨best, whole⟩ := exists_isFirstMin
      (unitScore (fun l => rankMean (splitEntropy (α := α) candidates heads) ((others + 1) * heads) 0
        ((candId candidates l).toNat - 1)) (start (units granularity seqLengths) 0)
        (units granularity seqLengths)[0])
      (Set.finite_Ico 1 candidates.length) ⟨1, le_rfl, by omega⟩
    have first := agree (splitEntropy candidates heads) 0 (by omega) 0 length best whole
    exact splitEntropy_differs (by omega) someHead distinct inRange (by omega) positive first whole
  · rintro (rfl | two) entropy rank bound k hk best documented
    · obtain rfl : rank = 0 := by omega
      rw [Nat.zero_mul]
      rwa [Nat.one_mul] at documented
    · exact isFirstMin_of_only documented.mem (region_only two documented.mem)

theorem rankForward_layers_twoCandidates :
    (∀ (entropy : Nat → Nat → Nat → ℚ) (rank : Nat), rank < 2 →
      (rankForward entropy 3 (rank * 3) [2, 3] fun _ _ => (0 : ℚ)).layers [2, 5] .sample 6 =
        (rankForward entropy (2 * 3) 0 [2, 3] fun _ _ => (0 : ℚ)).layers [2, 5] .sample 6) ↔
      2 = 1 ∨ [(2 : Int), 5].length ≤ 2 :=
  rankForward_layers_iff (by decide) (by decide) (by decide) (by decide) (by decide) (by decide)
    (by decide) .sample fun _ _ => (0 : ℚ)

/-- Two ranks of one head and three candidates: the first rank writes the second candidate's
rows where all heads together select the third. -/
theorem rankForward_layers_threeCandidates :
    ¬ ∀ (ranks heads : Nat) (entropy : Nat → Nat → Nat → ℚ) (rank : Nat) (candidates : List Int)
      (numLayers : Nat) (seqLengths : List Nat), rank < ranks → 0 < heads → candidates ≠ [] →
      candidates.Nodup → (∀ c ∈ candidates, InRange numLayers c) → (∀ n ∈ seqLengths, 0 < n) →
      1 < seqLengths.sum →
      (rankForward entropy heads (rank * heads) seqLengths fun _ _ => (0 : ℚ)).layers
          candidates .sample numLayers =
        (rankForward entropy (ranks * heads) 0 seqLengths fun _ _ => (0 : ℚ)).layers
          candidates .sample numLayers := by
  intro claim
  have same := claim 2 1 (splitEntropy [1, 2, 3] 1) 0 [1, 2, 3] 4 [2] (by decide) (by decide)
    (by decide) (by decide) (by decide) (by decide) (by decide)
  have shard : (rankForward (splitEntropy (α := ℚ) [1, 2, 3] 1) 1 (0 * 1) [2] fun _ _ => (0 : ℚ)).layers
      [1, 2, 3] .sample 4 = [2, 2] := by decide +kernel
  have whole : (rankForward (splitEntropy (α := ℚ) [1, 2, 3] 1) (2 * 1) 0 [2] fun _ _ => (0 : ℚ)).layers
      [1, 2, 3] .sample 4 = [3, 3] := by decide +kernel
  rw [shard, whole] at same
  exact absurd same (by decide)

end DreamAifd.TensorParallel
