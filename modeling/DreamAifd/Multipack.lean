import DreamAifd.BinPacking
import DreamAifd.Segments

/-! The multipack batch sampler. Every rank computes the whole plan by itself and keeps its own
batches; a round takes the longest run of samples that a greedy packing fits into one batch a
rank. -/
namespace DreamAifd.Multipack

open BinPacking FirstMin Segments

/-- The ascending sorting permutation of an array library. -/
structure ArgSort where
  order : List Nat → List Nat
  perm : ∀ lengths, (order lengths).Perm (List.range lengths.length)
  sorted : ∀ lengths, ((order lengths).map fun i => lengths.getD i 0).Pairwise (· ≤ ·)

/-- One bin a rank, the heap's least entry being the least full, then the least rank. -/
def lptLoop (maxLen startIndex rank : Nat) (lengths : List Nat) :
    List Nat → List Nat → List Nat → Option (List Nat)
  | _, localBatch, [] => some localBatch
  | fills, localBatch, idx :: indices =>
    let top := argmin fills
    let newFill := fills.getD top 0 + lengths.getD idx 0
    if maxLen < newFill then none
    else lptLoop maxLen startIndex rank lengths (fills.set top newFill)
      (if top = rank then localBatch ++ [startIndex + idx] else localBatch) indices

/-- `_lpt_packed_batch`: longest first, none where the lengths do not fit. -/
def lptPackedBatch (argsort : ArgSort) (lengths : List Nat) (maxLen numReplicas startIndex rank : Nat) :
    Option (List Nat) :=
  lptLoop maxLen startIndex rank lengths (List.replicate numReplicas 0) [] (argsort.order lengths).reverse

/-- `np.searchsorted` on an increasing array, to the right of equal entries. -/
def searchsortedRight (xs : List Nat) (v : Nat) : Nat := (xs.takeWhile (· ≤ v)).length

/-- The binary search of a round with `probe` for the packing of a prefix; none when out of fuel. -/
def searchLoop (probe : Nat → Option (List Nat)) (replicas : Nat) :
    Nat → Nat → Nat → Option (List Nat) → Option (Nat × Option (List Nat))
  | 0, _, _, _ => none
  | fuel + 1, left, right, batch =>
    if 1 < right - left ∧ replicas < right then
      let mid := (left + right) / 2
      match probe mid with
      | none => searchLoop probe replicas fuel left mid none
      | some found => searchLoop probe replicas fuel mid right (some found)
    else some (left, batch)

/-- The number of samples a round takes and this rank's batch. -/
def searchRound (argsort : ArgSort) (lengths : List Nat) (maxLen rank replicas lengthsSoFar ind : Nat) :
    Option (Nat × Option (List Nat)) :=
  let probe n := lptPackedBatch argsort (slice ind n lengths) maxLen replicas ind rank
  let right := 1 + searchsortedRight ((cumulative 0 lengths).drop ind) (lengthsSoFar + maxLen * replicas)
  (searchLoop probe replicas right 1 right none).map fun (left, batch) =>
    (left, match batch with
      | none => probe left
      | some found => some found)

def assignLoop (argsort : ArgSort) (lengths : List Nat) (maxLen rank replicas : Nat) :
    Nat → Nat → Nat → List (Option (List Nat)) → Option (List (Option (List Nat)))
  | 0, _, _, _ => none
  | fuel + 1, lengthsSoFar, ind, result =>
    if lengths.length - ind < replicas then some result
    else
      match searchRound argsort lengths maxLen rank replicas lengthsSoFar ind with
      | none => none
      | some (left, batch) =>
        assignLoop argsort lengths maxLen rank replicas fuel ((cumulative 0 lengths).getD (ind + left - 1) 0)
          (ind + left) (result ++ [batch])

/-- `_assign_to_packed_batches`, with fuel for one round a sample. -/
def assignToPackedBatches (argsort : ArgSort) (lengths : List Nat) (maxLen rank replicas : Nat) :
    Option (List (Option (List Nat))) :=
  assignLoop argsort lengths maxLen rank replicas (lengths.length + 1) 0 0 []

structure Rng where
  permutation : Nat → List Nat → List Nat
  perm : ∀ seed xs, (permutation seed xs).Perm xs

/-- `MultipackDistributedBatchSamplerV2` of one rank; the batches of the epoch last asked for are kept. -/
structure Sampler where
  numReplicas : Nat
  rank : Nat
  seed : Nat
  batchMaxLength : Nat
  lengths : List Nat
  validIndices : List Nat
  cachedGeneratedBatches : Int × List (Option (List Nat))

/-- `__init__`: longer samples are cut to the maximum, or dropped. -/
def Sampler.init (batchMaxLength : Nat) (lengths : List Nat) (numReplicas rank : Nat)
    (truncateLongSamples : Bool) (seed : Nat) : Sampler :=
  let valid := (List.range lengths.length).filter fun i => lengths.getD i 0 ≤ batchMaxLength
  let truncate := valid.length < lengths.length ∧ truncateLongSamples
  { numReplicas, rank, seed, batchMaxLength
    lengths := if truncate then lengths.map (min · batchMaxLength) else lengths
    validIndices := if truncate then List.range lengths.length else valid
    cachedGeneratedBatches := (-1, []) }

def Sampler.freshBatches (argsort : ArgSort) (rng : Rng) (s : Sampler) (epoch : Nat) :
    Option (List (Option (List Nat))) :=
  let indices := rng.permutation (s.seed + epoch) s.validIndices
  (assignToPackedBatches argsort (indices.map fun i => s.lengths.getD i 0) s.batchMaxLength s.rank
    s.numReplicas).map fun batches => batches.map (·.map (·.map (indices.getD · 0)))

def Sampler.generateBatches (argsort : ArgSort) (rng : Rng) (s : Sampler) (epoch : Nat) :
    Option (List (Option (List Nat)) × Sampler) :=
  if s.cachedGeneratedBatches.1 = epoch then some (s.cachedGeneratedBatches.2, s)
  else (s.freshBatches argsort rng epoch).map fun batches =>
    (batches, { s with cachedGeneratedBatches := (epoch, batches) })

def Sampler.afterEpochs (argsort : ArgSort) (rng : Rng) : Sampler → List Nat → Option Sampler
  | s, [] => some s
  | s, epoch :: epochs => (s.generateBatches argsort rng epoch).bind fun (_, s) => s.afterEpochs argsort rng epochs

section Packing

variable (argsort : ArgSort) (lengths : List Nat) (maxLen replicas : Nat)

/-- Each sample of a slice with its place in the whole list and its length, longest first. -/
def items (startIndex : Nat) (slice : List Nat) : List (Nat × Nat) :=
  (argsort.order slice).reverse.map fun i => (startIndex + i, slice.getD i 0)

def packing (ind n : Nat) : Option (List ((Nat × Nat) × Nat)) :=
  place maxLen (List.replicate replicas 0) (items argsort ind (slice ind n lengths))

def batchOf (placed : List ((Nat × Nat) × Nat)) (rank : Nat) : List Nat := (inBin placed rank).map (·.1)

theorem lptLoop_eq_place (startIndex rank : Nat) (slice fills localBatch indices : List Nat) :
    lptLoop maxLen startIndex rank slice fills localBatch indices =
      (place maxLen fills (indices.map fun i => (startIndex + i, slice.getD i 0))).map
        fun placed => localBatch ++ batchOf placed rank := by
  induction indices generalizing fills localBatch with
  | nil => simp [lptLoop, place, batchOf, inBin]
  | cons idx indices ih =>
    rw [lptLoop, List.map_cons, place]
    split
    · rfl
    · rw [ih, Option.map_map]
      refine congrArg (Option.map · _) (funext fun placed => ?_)
      rw [Function.comp_apply, batchOf, batchOf, inBin_cons]
      split
      · rw [List.map_cons, List.append_assoc]
        rfl
      · rfl

theorem lptPackedBatch_eq (ind n rank : Nat) :
    lptPackedBatch argsort (slice ind n lengths) maxLen replicas ind rank =
      (packing argsort lengths maxLen replicas ind n).map (batchOf · rank) := by
  rw [lptPackedBatch, lptLoop_eq_place]
  rfl

variable {argsort lengths maxLen replicas}

theorem length_items (startIndex : Nat) (slice : List Nat) :
    (items argsort startIndex slice).length = slice.length := by
  rw [items, List.length_map, List.length_reverse, (argsort.perm slice).length_eq, List.length_range]

theorem mem_items {startIndex : Nat} {slice : List Nat} {item : Nat × Nat}
    (member : item ∈ items argsort startIndex slice) :
    ∃ i, ∃ hi : i < slice.length, item = (startIndex + i, slice[i]) := by
  obtain ⟨i, place, rfl⟩ := List.mem_map.mp member
  rw [List.mem_reverse, (argsort.perm slice).mem_iff, List.mem_range] at place
  exact ⟨i, place, by rw [List.getD_eq_getElem _ _ place]⟩

variable (argsort) in
theorem perm_items (startIndex : Nat) (slice : List Nat) :
    ((items argsort startIndex slice).map (·.1)).Perm (List.range' startIndex slice.length) := by
  rw [items, List.map_map, List.range'_eq_map_range]
  exact ((List.reverse_perm _).trans (argsort.perm slice)).map _

end Packing

/-- With `fit` for the packing of a prefix and `keep` for a rank's share, all ranks search alike: the
search ends at a prefix that fits, no shorter than what always fits, with its batch where the last
probe was the one that fitted. -/
theorem searchLoop_all {π : Type*} (fit : Nat → Option π) (keep : Nat → π → List Nat) {replicas : Nat}
    (few : ∀ n ≤ replicas, (fit n).isSome) (fuel left right : Nat) (batch : Nat → Option (List Nat))
    (enough : right - left < fuel) (apart : left < right) (wide : replicas < right) (fits : (fit left).isSome)
    (last : ∀ rank, batch rank = none ∨ batch rank = (fit left).map (keep rank)) :
    ∃ n placed, replicas ≤ n ∧ n < right ∧ fit n = some placed ∧ ∀ rank, ∃ kept,
      searchLoop (fun m => (fit m).map (keep rank)) replicas fuel left right (batch rank) = some (n, kept) ∧
        (kept = none ∨ kept = some (keep rank placed)) := by
  induction fuel generalizing left right batch with
  | zero => exact absurd enough (Nat.not_lt_zero _)
  | succ fuel ih =>
    by_cases more : 1 < right - left
    · cases probe : fit ((left + right) / 2) with
      | none =>
        -- a probe of at most one sample a rank cannot fail
        have long : replicas < (left + right) / 2 := by
          by_contra short
          simpa [probe] using few _ (Nat.le_of_not_lt short)
        obtain ⟨n, placed, reach, before, fitted, all⟩ :=
          ih left ((left + right) / 2) (fun _ => none) (by omega) (by omega) long fits fun _ => .inl rfl
        refine ⟨n, placed, reach, by omega, fitted, fun rank => ?_⟩
        obtain ⟨kept, searched, result⟩ := all rank
        refine ⟨kept, ?_, result⟩
        rw [searchLoop, if_pos ⟨more, wide⟩]
        simpa only [probe, Option.map_none] using searched
      | some found =>
        obtain ⟨n, placed, reach, before, fitted, all⟩ :=
          ih ((left + right) / 2) right (fun rank => some (keep rank found)) (by omega) (by omega) wide
            (by rw [probe]; rfl) fun rank => .inr (by rw [probe]; rfl)
        refine ⟨n, placed, reach, before, fitted, fun rank => ?_⟩
        obtain ⟨kept, searched, result⟩ := all rank
        refine ⟨kept, ?_, result⟩
        rw [searchLoop, if_pos ⟨more, wide⟩]
        simpa only [probe, Option.map_some] using searched
    · obtain ⟨placed, fitted⟩ := Option.isSome_iff_exists.mp fits
      refine ⟨left, placed, by omega, apart, fitted, fun rank => ⟨batch rank, ?_, ?_⟩⟩
      · rw [searchLoop, if_neg fun go => more go.1]
      · simpa only [fitted, Option.map_some] using last rank

/-- One batch a rank over the `n` samples from `ind` on. -/
structure IsRound (lengths : List Nat) (maxLen replicas ind n : Nat) (round : Nat → List Nat) : Prop where
  nonempty : ∀ rank < replicas, round rank ≠ []
  fits : ∀ rank < replicas, ((round rank).map fun i => lengths.getD i 0).sum ≤ maxLen
  covers : ((List.range replicas).flatMap round).Perm (List.range' ind n)

section Round

variable {argsort : ArgSort} {lengths : List Nat} {maxLen replicas : Nat}

theorem le_searchsortedRight {xs : List Nat} {v n : Nat} (size : n ≤ xs.length)
    (small : ∀ x ∈ xs.take n, x ≤ v) : n ≤ searchsortedRight xs v := by
  have whole : (xs.take n).takeWhile (· ≤ v) = xs.take n := List.takeWhile_eq_self_iff.mpr (by simpa using small)
  have split : xs.takeWhile (· ≤ v) = xs.take n ++ (xs.drop n).takeWhile (· ≤ v) := by
    conv_lhs => rw [← List.take_append_drop n xs]
    rw [List.takeWhile_append, whole, if_pos rfl]
  rw [searchsortedRight, split, List.length_append, List.length_take, Nat.min_eq_left size]
  exact Nat.le_add_right _ _

theorem searchsortedRight_le (xs : List Nat) (v : Nat) : searchsortedRight xs v ≤ xs.length :=
  (List.takeWhile_sublist _).length_le

theorem start_add_le (small : ∀ length ∈ lengths, length ≤ maxLen) (ind k : Nat) :
    start lengths (ind + k) ≤ start lengths ind + maxLen * k := by
  have most := List.sum_le_card_nsmul (slice ind k lengths) maxLen fun x member =>
    small x (List.drop_subset _ _ (List.take_subset _ _ member))
  have size : (slice ind k lengths).length ≤ k := List.length_take_le _ _
  rw [start, List.take_add, List.sum_append]
  apply Nat.add_le_add_left
  rw [Nat.mul_comm]
  exact most.trans (Nat.mul_le_mul_right _ size)

theorem packing_few (positive : ∀ length ∈ lengths, 0 < length) (small : ∀ length ∈ lengths, length ≤ maxLen)
    {ind n : Nat} (few : n ≤ replicas) : (packing argsort lengths maxLen replicas ind n).isSome := by
  have window {i : Nat} (hi : i < (slice ind n lengths).length) : (slice ind n lengths)[i] ∈ lengths :=
    List.drop_subset _ _ (List.take_subset _ _ (List.getElem_mem hi))
  apply place_isSome
  · intro item member
    obtain ⟨i, hi, rfl⟩ := mem_items member
    exact positive _ (window hi)
  · intro item member
    obtain ⟨i, hi, rfl⟩ := mem_items member
    exact small _ (window hi)
  · rw [length_items, List.count_replicate_self, slice, List.length_take]
    omega

theorem packing_isRound (positive : ∀ length ∈ lengths, 0 < length) {ind n : Nat}
    {placed : List ((Nat × Nat) × Nat)} (some_rank : 0 < replicas) (enough : replicas ≤ n)
    (inside : ind + n ≤ lengths.length) (packed : packing argsort lengths maxLen replicas ind n = some placed) :
    IsRound lengths maxLen replicas ind n (batchOf placed) := by
  have size : (slice ind n lengths).length = n := by
    rw [slice, List.length_take, List.length_drop]
    omega
  have placedItems := place_items packed
  have item {p : (Nat × Nat) × Nat} (member : p ∈ placed) :
      ∃ i, ∃ hi : ind + i < lengths.length, p.1 = (ind + i, lengths[ind + i]) := by
    obtain ⟨i, hi, same⟩ := mem_items (placedItems ▸ List.mem_map_of_mem member)
    refine ⟨i, by omega, same.trans ?_⟩
    simp [slice]
  refine ⟨fun rank inBounds => ?_, fun rank inBounds => ?_, ?_⟩
  · rw [batchOf, ne_eq, List.map_eq_nil_iff]
    apply place_nonempty _ _ packed (by rwa [List.length_replicate]) (List.getElem_replicate _)
    · intro item member
      obtain ⟨i, hi, rfl⟩ := mem_items member
      exact positive _ (List.drop_subset _ _ (List.take_subset _ _ (List.getElem_mem hi)))
    · rw [length_items, size, List.count_replicate_self]
      exact enough
  · have inside : rank < (List.replicate replicas 0).length := by rwa [List.length_replicate]
    have within := place_fits (by simp) packed inside
    rw [List.getElem_replicate, Nat.zero_add] at within
    have sizes : (batchOf placed rank).map (fun i => lengths.getD i 0) = (inBin placed rank).map (·.2) := by
      rw [batchOf, List.map_map]
      refine List.map_congr_left fun x member => ?_
      obtain ⟨p, found, rfl⟩ := List.mem_map.mp member
      obtain ⟨i, hi, same⟩ := item (List.mem_of_mem_filter found)
      rw [Function.comp_apply, same, List.getD_eq_getElem _ _ hi]
    rwa [sizes]
  · have bins := place_bins (by simpa using some_rank.ne') packed
    rw [List.length_replicate] at bins
    have once := (perm_inBin bins).map (·.1)
    rw [List.map_flatMap, placedItems] at once
    have indices := perm_items argsort ind (slice ind n lengths)
    rw [size] at indices
    exact once.trans indices

variable (argsort) in
/-- Every rank takes the same samples in a round, at least one each, and finds its own batch. -/
theorem searchRound_all (positive : ∀ length ∈ lengths, 0 < length)
    (small : ∀ length ∈ lengths, length ≤ maxLen) (some_rank : 0 < replicas) (ind : Nat)
    (more : ind + replicas ≤ lengths.length) :
    ∃ n round, replicas ≤ n ∧ ind + n ≤ lengths.length ∧ IsRound lengths maxLen replicas ind n round ∧
      ∀ rank, searchRound argsort lengths maxLen rank replicas (start lengths ind) ind =
        some (n, some (round rank)) := by
  have upper : replicas ≤
      searchsortedRight ((cumulative 0 lengths).drop ind) (start lengths ind + maxLen * replicas) := by
    apply le_searchsortedRight
    · rw [List.length_drop, length_cumulative]
      omega
    · intro x member
      obtain ⟨i, hi, rfl⟩ := List.mem_iff_getElem.mp member
      have first : i < replicas := hi.trans_le (List.length_take_le _ _)
      have total : (cumulative 0 lengths)[ind + i]? = some (start lengths (ind + i + 1)) := by
        rw [getElem?_cumulative 0 lengths (by omega), Nat.zero_add]
      rw [List.getElem_take, List.getElem_drop, (List.getElem_eq_iff _).mpr total, Nat.add_assoc]
      exact (start_add_le small ind (i + 1)).trans
        (Nat.add_le_add_left (Nat.mul_le_mul_left _ first) _)
  have lower := searchsortedRight_le ((cumulative 0 lengths).drop ind) (start lengths ind + maxLen * replicas)
  rw [List.length_drop, length_cumulative] at lower
  generalize most : searchsortedRight ((cumulative 0 lengths).drop ind) (start lengths ind + maxLen * replicas) = bound
    at upper lower
  obtain ⟨n, placed, reach, before, packed, all⟩ :=
    searchLoop_all (packing argsort lengths maxLen replicas ind) (fun rank placed => batchOf placed rank)
      (fun n few => packing_few positive small few) (1 + bound) 1 (1 + bound) (fun _ => none)
      (by omega) (by omega) (by omega) (packing_few positive small some_rank) fun _ => .inl rfl
  have isRound := packing_isRound positive some_rank reach (by omega) packed
  refine ⟨n, batchOf placed, reach, by omega, isRound, fun rank => ?_⟩
  obtain ⟨kept, searched, result⟩ := all rank
  rw [searchRound]
  simp only [lptPackedBatch_eq, most]
  rw [searched, Option.map_some]
  rcases result with rfl | rfl
  · simp only [packed, Option.map_some]
  · rfl

variable (argsort) in
/-- From a common state all ranks run the same rounds, up to a remainder of fewer samples than ranks. -/
theorem assignLoop_all (positive : ∀ length ∈ lengths, 0 < length)
    (small : ∀ length ∈ lengths, length ≤ maxLen) (some_rank : 0 < replicas) {fuel ind : Nat}
    (inside : ind ≤ lengths.length) (enough : lengths.length - ind < fuel) :
    ∃ rounds : List (Nat → List Nat), ∃ k, lengths.length < ind + k + replicas ∧ ind + k ≤ lengths.length ∧
      (∀ round ∈ rounds, ∃ first n, IsRound lengths maxLen replicas first n round) ∧
      (rounds.flatMap fun round => (List.range replicas).flatMap round).Perm (List.range' ind k) ∧
      ∀ rank result, assignLoop argsort lengths maxLen rank replicas fuel (start lengths ind) ind result =
        some (result ++ rounds.map fun round => some (round rank)) := by
  induction fuel generalizing ind with
  | zero => exact absurd enough (Nat.not_lt_zero _)
  | succ fuel ih =>
    by_cases few : lengths.length - ind < replicas
    · refine ⟨[], 0, by omega, inside, by simp, by simp, fun rank result => ?_⟩
      rw [assignLoop, if_pos few, List.map_nil, List.append_nil]
    · obtain ⟨n, round, reach, within, isRound, all⟩ :=
        searchRound_all argsort positive small some_rank ind (by omega)
      obtain ⟨rounds, k, short, bounded, each, once, later⟩ := ih within (by omega)
      have soFar : (cumulative 0 lengths).getD (ind + n - 1) 0 = start lengths (ind + n) := by
        rw [List.getD_eq_getElem?_getD, getElem?_cumulative 0 lengths (by omega), Option.getD_some, Nat.zero_add,
          Nat.sub_add_cancel (by omega)]
      refine ⟨round :: rounds, n + k, by omega, by omega, ?_, ?_, fun rank result => ?_⟩
      · rintro other (_ | ⟨_, member⟩)
        · exact ⟨ind, n, isRound⟩
        · exact each other member
      · rw [List.flatMap_cons, ← List.range'_append_1]
        exact isRound.covers.append once
      · rw [assignLoop, if_neg few, all rank]
        simp only [soFar]
        rw [later rank, List.append_assoc]
        rfl

end Round

/-- What the ranks together make of an epoch: the batches of every rank over the samples in epoch order. -/
structure Plan (lengthOf : Nat → Nat) (indices : List Nat) (maxLen replicas : Nat)
    (batches : Nat → List (List Nat)) : Prop where
  sameCount : ∀ rank < replicas, ∀ other < replicas, (batches rank).length = (batches other).length
  nonempty : ∀ rank < replicas, ∀ batch ∈ batches rank, batch ≠ []
  fits : ∀ rank < replicas, ∀ batch ∈ batches rank, (batch.map lengthOf).sum ≤ maxLen
  once : ((List.range replicas).flatMap fun rank => (batches rank).flatten).Nodup
  covers : ∃ k, indices.length < k + replicas ∧
    ((List.range replicas).flatMap fun rank => (batches rank).flatten).Perm (indices.take k)

theorem perm_flatMap_swap (rounds : List (Nat → List Nat)) (ranks : List Nat) :
    (ranks.flatMap fun rank => (rounds.map (· rank)).flatten).Perm
      (rounds.flatMap fun round => ranks.flatMap round) := by
  induction rounds with
  | nil => simp
  | cons round rounds ih =>
    simp only [List.map_cons, List.flatten_cons]
    rw [List.flatMap_cons]
    exact (List.flatMap_append_perm ranks _ _).symm.trans (ih.append_left _)

/-- The assignment ends on every rank, with a plan over the samples in the order given. -/
theorem assignToPackedBatches_plan (argsort : ArgSort) (lengths : List Nat) (maxLen : Nat) {replicas : Nat}
    (positive : ∀ length ∈ lengths, 0 < length) (small : ∀ length ∈ lengths, length ≤ maxLen)
    (some_rank : 0 < replicas) : ∃ batches,
      (∀ rank, assignToPackedBatches argsort lengths maxLen rank replicas = some ((batches rank).map some)) ∧
        Plan (lengths.getD · 0) (List.range lengths.length) maxLen replicas batches := by
  obtain ⟨rounds, k, short, bounded, each, once, all⟩ :=
    assignLoop_all argsort positive small some_rank (Nat.zero_le _)
      (show lengths.length - 0 < lengths.length + 1 by omega)
  rw [Nat.zero_add] at short bounded
  have assigned := (perm_flatMap_swap rounds (List.range replicas)).trans once
  refine ⟨fun rank => rounds.map (· rank), fun rank => ?_, ?_, ?_, ?_, ?_, k, ?_, ?_⟩
  · have run := all rank []
    rw [List.nil_append] at run
    rw [assignToPackedBatches, List.map_map]
    exact run
  · intro rank _ other _
    rw [List.length_map, List.length_map]
  · intro rank inBounds batch member
    obtain ⟨round, found, rfl⟩ := List.mem_map.mp member
    obtain ⟨first, n, isRound⟩ := each round found
    exact isRound.nonempty rank inBounds
  · intro rank inBounds batch member
    obtain ⟨round, found, rfl⟩ := List.mem_map.mp member
    obtain ⟨first, n, isRound⟩ := each round found
    exact isRound.fits rank inBounds
  · exact assigned.symm.nodup List.nodup_range'
  · rwa [List.length_range]
  · rw [List.take_range, Nat.min_eq_left bounded, List.range_eq_range' (n := k)]
    exact assigned

/-- Renaming the places of an epoch to the samples standing there. -/
theorem Plan.rename {lengthOf placeLength : Nat → Nat} {indices : List Nat} {maxLen replicas : Nat}
    {batches : Nat → List (List Nat)} (distinct : indices.Nodup)
    (same : ∀ i < indices.length, placeLength i = lengthOf (indices.getD i 0))
    (plan : Plan placeLength (List.range indices.length) maxLen replicas batches) :
    Plan lengthOf indices maxLen replicas fun rank => (batches rank).map (·.map (indices.getD · 0)) := by
  obtain ⟨k, short, covers⟩ := plan.covers
  have renamed : ((List.range replicas).flatMap fun rank =>
      ((batches rank).map (·.map (indices.getD · 0))).flatten).Perm (indices.take k) := by
    have places := covers.map (indices.getD · 0)
    rw [List.map_flatMap] at places
    simp only [List.map_flatten] at places
    have samples : ((List.range indices.length).take k).map (indices.getD · 0) = indices.take k := by
      rw [List.map_take, ← eq_map_range_getD indices 0 rfl]
    rwa [samples] at places
  refine ⟨?_, ?_, ?_, ?_, k, by simpa using short, renamed⟩
  · intro rank inBounds other otherInBounds
    rw [List.length_map, List.length_map, plan.sameCount rank inBounds other otherInBounds]
  · intro rank inBounds batch member
    obtain ⟨places, found, rfl⟩ := List.mem_map.mp member
    rw [ne_eq, List.map_eq_nil_iff]
    exact plan.nonempty rank inBounds places found
  · intro rank inBounds batch member
    obtain ⟨places, found, rfl⟩ := List.mem_map.mp member
    have placed : ∀ i ∈ places, i < indices.length := by
      intro i inside
      have anywhere : i ∈ (List.range replicas).flatMap fun rank => (batches rank).flatten :=
        List.mem_flatMap.mpr ⟨rank, List.mem_range.mpr inBounds, List.mem_flatten.mpr ⟨places, found, inside⟩⟩
      exact List.mem_range.mp (List.take_subset _ _ (covers.mem_iff.mp anywhere))
    have lengths : places.map placeLength = places.map fun i => lengthOf (indices.getD i 0) :=
      List.map_congr_left fun i inside => same i (placed i inside)
    have fits := plan.fits rank inBounds places found
    rw [lengths] at fits
    rwa [List.map_map]
  · exact renamed.symm.nodup (distinct.sublist (List.take_sublist _ _))

/-- Only the lengths of the samples themselves matter. -/
theorem Plan.congr {lengthOf otherLength : Nat → Nat} {indices : List Nat} {maxLen replicas : Nat}
    {batches : Nat → List (List Nat)} (plan : Plan lengthOf indices maxLen replicas batches)
    (same : ∀ i ∈ indices, lengthOf i = otherLength i) : Plan otherLength indices maxLen replicas batches where
  sameCount := plan.sameCount
  nonempty := plan.nonempty
  once := plan.once
  covers := plan.covers
  fits rank inBounds batch member := by
    obtain ⟨k, -, covers⟩ := plan.covers
    have lengths : batch.map lengthOf = batch.map otherLength := by
      refine List.map_congr_left fun i inside => same i (List.take_subset k _ (covers.mem_iff.mp ?_))
      exact List.mem_flatMap.mpr ⟨rank, List.mem_range.mpr inBounds, List.mem_flatten.mpr ⟨batch, member, inside⟩⟩
    rw [← lengths]
    exact plan.fits rank inBounds batch member

section Sampler

variable {argsort : ArgSort} {rng : Rng}

/-- What the sampler keeps is what it would generate. -/
def Sampler.Kept (argsort : ArgSort) (rng : Rng) (s : Sampler) : Prop :=
  ∀ epoch : Nat, s.cachedGeneratedBatches.1 = epoch →
    s.freshBatches argsort rng epoch = some s.cachedGeneratedBatches.2

theorem Sampler.generateBatches_kept {s : Sampler} (kept : s.Kept argsort rng) {epoch : Nat}
    {batches : List (Option (List Nat))} (fresh : s.freshBatches argsort rng epoch = some batches) :
    ∃ cache, s.generateBatches argsort rng epoch = some (batches, { s with cachedGeneratedBatches := cache }) ∧
      Sampler.Kept argsort rng { s with cachedGeneratedBatches := cache } := by
  rw [Sampler.generateBatches]
  split
  next hit =>
    have same := (kept epoch hit).symm.trans fresh
    exact ⟨s.cachedGeneratedBatches, by rw [Option.some.inj same], kept⟩
  next miss =>
    refine ⟨(epoch, batches), by rw [fresh, Option.map_some], fun other same => ?_⟩
    obtain rfl : epoch = other := Int.ofNat.inj same
    exact fresh

/-- Asking for other epochs first changes only what is kept. -/
theorem Sampler.afterEpochs_kept {s : Sampler} (kept : s.Kept argsort rng)
    (fresh : ∀ epoch, (s.freshBatches argsort rng epoch).isSome) (epochs : List Nat) :
    ∃ cache, s.afterEpochs argsort rng epochs = some { s with cachedGeneratedBatches := cache } ∧
      Sampler.Kept argsort rng { s with cachedGeneratedBatches := cache } := by
  induction epochs generalizing s with
  | nil => exact ⟨s.cachedGeneratedBatches, rfl, kept⟩
  | cons epoch epochs ih =>
    obtain ⟨batches, generated⟩ := Option.isSome_iff_exists.mp (fresh epoch)
    obtain ⟨cache, step, keptNext⟩ := generateBatches_kept kept generated
    obtain ⟨last, rest, keptLast⟩ := ih keptNext fresh
    refine ⟨last, ?_, keptLast⟩
    rw [afterEpochs, step]
    exact rest

/-- The samples that are left: all of them, cut to the maximum, or those that are not longer. -/
theorem Sampler.init_valid (batchMaxLength : Nat) (lengths : List Nat) (numReplicas rank : Nat)
    (truncateLongSamples : Bool) (seed : Nat) :
    let s := Sampler.init batchMaxLength lengths numReplicas rank truncateLongSamples seed
    s.validIndices.Nodup ∧
      (∀ i, i ∈ s.validIndices ↔ i < lengths.length ∧ (truncateLongSamples ∨ lengths.getD i 0 ≤ batchMaxLength)) ∧
      ∀ i ∈ s.validIndices, s.lengths.getD i 0 = min (lengths.getD i 0) batchMaxLength := by
  rw [Sampler.init]
  by_cases truncate : ((List.range lengths.length).filter fun i => lengths.getD i 0 ≤ batchMaxLength).length <
      lengths.length ∧ truncateLongSamples = true
  · simp only [if_pos truncate]
    refine ⟨List.nodup_range, fun i => by simp [truncate.2], fun i member => ?_⟩
    have inside := List.mem_range.mp member
    rw [List.getD_eq_getElem _ _ (by simpa using inside), List.getElem_map, List.getD_eq_getElem _ _ inside]
  · simp only [if_neg truncate]
    refine ⟨List.nodup_range.filter _, fun i => ?_, fun i member => ?_⟩
    · rw [List.mem_filter, List.mem_range, decide_eq_true_iff]
      refine and_congr_right fun inside => ⟨.inr, ?_⟩
      rintro (cut | small)
      · -- nothing is cut here, so no sample is longer
        have all : ((List.range lengths.length).filter fun i => lengths.getD i 0 ≤ batchMaxLength) =
            List.range lengths.length := by
          apply (List.filter_sublist).eq_of_length_le
          rw [List.length_range]
          exact Nat.le_of_not_lt fun fewer => truncate ⟨fewer, cut⟩
        have member := List.mem_range.mpr inside
        rw [← all] at member
        exact of_decide_eq_true (List.mem_filter.mp member).2
      · exact small
    · exact (Nat.min_eq_left (of_decide_eq_true (List.mem_filter.mp member).2)).symm

/-- All ranks generate, for every epoch, batches that make one plan over the samples. -/
theorem Sampler.freshBatches_plan (argsort : ArgSort) (rng : Rng) {batchMaxLength numReplicas : Nat}
    (some_replica : 0 < numReplicas) {lengths valid : List Nat} (distinct : valid.Nodup)
    (positive : ∀ i ∈ valid, 0 < lengths.getD i 0) (small : ∀ i ∈ valid, lengths.getD i 0 ≤ batchMaxLength)
    (seed epoch : Nat) :
    ∃ batches, Plan (lengths.getD · 0) (rng.permutation (seed + epoch) valid) batchMaxLength numReplicas batches ∧
      ∀ rank cache, Sampler.freshBatches argsort rng
        ⟨numReplicas, rank, seed, batchMaxLength, lengths, valid, cache⟩ epoch = some ((batches rank).map some) := by
  have shuffle := rng.perm (seed + epoch) valid
  generalize shuffled : rng.permutation (seed + epoch) valid = indices at shuffle ⊢
  have member {length : Nat} (found : length ∈ indices.map fun i => lengths.getD i 0) :
      ∃ i ∈ valid, lengths.getD i 0 = length := by
    obtain ⟨i, place, same⟩ := List.mem_map.mp found
    exact ⟨i, shuffle.mem_iff.mp place, same⟩
  obtain ⟨batches, run, plan⟩ :=
    assignToPackedBatches_plan argsort (indices.map fun i => lengths.getD i 0) batchMaxLength
      (fun length found => by obtain ⟨i, kept, rfl⟩ := member found; exact positive i kept)
      (fun length found => by obtain ⟨i, kept, rfl⟩ := member found; exact small i kept) some_replica
  rw [List.length_map] at plan
  refine ⟨_, plan.rename (shuffle.symm.nodup distinct) fun i inside => ?_, fun rank cache => ?_⟩
  · simp [inside]
  · rw [freshBatches]
    simp only [shuffled, run rank, Option.map_some, List.map_map]
    rfl

end Sampler

/-- Every epoch of every run of a sampler in each rank: the ranks return, and their batches are one plan over
the epoch's samples, which are all that were not dropped. -/
theorem generateBatches_plan (argsort : ArgSort) (rng : Rng) (batchMaxLength : Nat) (lengths : List Nat)
    {numReplicas : Nat} (some_replica : 0 < numReplicas) (truncateLongSamples : Bool) (seed : Nat)
    (positive : ∀ i < lengths.length, (truncateLongSamples ∨ lengths.getD i 0 ≤ batchMaxLength) →
      0 < min (lengths.getD i 0) batchMaxLength)
    (earlier : List Nat) (epoch : Nat) :
    ∃ valid batches, valid.Nodup ∧
      (∀ i, i ∈ valid ↔ i < lengths.length ∧ (truncateLongSamples ∨ lengths.getD i 0 ≤ batchMaxLength)) ∧
      (∀ rank, ∃ s used,
        (Sampler.init batchMaxLength lengths numReplicas rank truncateLongSamples seed).afterEpochs argsort rng earlier =
          some s ∧ s.generateBatches argsort rng epoch = some ((batches rank).map some, used)) ∧
      Plan (fun i => min (lengths.getD i 0) batchMaxLength) (rng.permutation (seed + epoch) valid) batchMaxLength
        numReplicas batches := by
  obtain ⟨distinct, left, cut⟩ := Sampler.init_valid batchMaxLength lengths numReplicas 0 truncateLongSamples seed
  have whole : ∀ i ∈ (Sampler.init batchMaxLength lengths numReplicas 0 truncateLongSamples seed).validIndices,
      0 < (Sampler.init batchMaxLength lengths numReplicas 0 truncateLongSamples seed).lengths.getD i 0 := by
    intro i member
    rw [cut i member]
    exact positive i ((left i).mp member).1 ((left i).mp member).2
  have small : ∀ i ∈ (Sampler.init batchMaxLength lengths numReplicas 0 truncateLongSamples seed).validIndices,
      (Sampler.init batchMaxLength lengths numReplicas 0 truncateLongSamples seed).lengths.getD i 0 ≤
        batchMaxLength := fun i member => (cut i member).trans_le (Nat.min_le_right _ _)
  have fresh (epoch : Nat) := Sampler.freshBatches_plan argsort rng some_replica distinct whole small seed epoch
  obtain ⟨batches, plan, run⟩ := fresh epoch
  refine ⟨_, batches, distinct, left, fun rank => ?_, plan.congr fun i member => ?_⟩
  · have empty : (Sampler.init batchMaxLength lengths numReplicas rank truncateLongSamples seed).Kept argsort rng := by
      intro other same
      exact absurd same (by simp [Sampler.init])
    obtain ⟨cache, before, kept⟩ := Sampler.afterEpochs_kept empty
      (fun other => by
        obtain ⟨_, _, each⟩ := fresh other
        exact Option.isSome_iff_exists.mpr ⟨_, each rank _⟩) earlier
    obtain ⟨_, generated, -⟩ := Sampler.generateBatches_kept kept (run rank cache)
    exact ⟨_, _, before, generated⟩
  · exact cut i ((rng.perm _ _).mem_iff.mp member)

/-- A stable sorting permutation. -/
def stableArgSort : ArgSort where
  order lengths := (List.range lengths.length).insertionSort fun i j => lengths.getD i 0 ≤ lengths.getD j 0
  perm _ := List.perm_insertionSort _ _
  sorted lengths := by
    have total : Std.Total fun i j => lengths.getD i 0 ≤ lengths.getD j 0 := ⟨fun _ _ => Nat.le_total _ _⟩
    have trans : IsTrans Nat fun i j => lengths.getD i 0 ≤ lengths.getD j 0 := ⟨fun _ _ _ => Nat.le_trans⟩
    rw [List.pairwise_map]
    exact List.pairwise_insertionSort _ _

/-- Two replicas: a long sample that is cut, one that is dropped, and lengths that all fit. -/
theorem generateBatches_plan_pair :
    (∃ valid batches, valid.Nodup ∧ (∀ i, i ∈ valid ↔ i < 4 ∧ (true = true ∨ [2, 3, 5, 1].getD i 0 ≤ 4)) ∧
      (∀ rank, ∃ s used,
        (Sampler.init 4 [2, 3, 5, 1] 2 rank true 0).afterEpochs stableArgSort ⟨fun _ => id, fun _ _ => .rfl⟩ [1] =
          some s ∧
        s.generateBatches stableArgSort ⟨fun _ => id, fun _ _ => .rfl⟩ 0 = some ((batches rank).map some, used)) ∧
      Plan (fun i => min ([2, 3, 5, 1].getD i 0) 4) valid 4 2 batches) ∧
    (∃ valid batches, valid.Nodup ∧ (∀ i, i ∈ valid ↔ i < 4 ∧ (false = true ∨ [2, 3, 5, 1].getD i 0 ≤ 4)) ∧
      (∀ rank, ∃ s used,
        (Sampler.init 4 [2, 3, 5, 1] 2 rank false 0).afterEpochs stableArgSort ⟨fun _ => id, fun _ _ => .rfl⟩ [] =
          some s ∧
        s.generateBatches stableArgSort ⟨fun _ => id, fun _ _ => .rfl⟩ 0 = some ((batches rank).map some, used)) ∧
      Plan (fun i => min ([2, 3, 5, 1].getD i 0) 4) valid 4 2 batches) ∧
    ∃ valid batches, valid.Nodup ∧ (∀ i, i ∈ valid ↔ i < 3 ∧ (true = true ∨ [2, 3, 4].getD i 0 ≤ 4)) ∧
      (∀ rank, ∃ s used,
        (Sampler.init 4 [2, 3, 4] 2 rank true 0).afterEpochs stableArgSort ⟨fun _ => id, fun _ _ => .rfl⟩ [] =
          some s ∧
        s.generateBatches stableArgSort ⟨fun _ => id, fun _ _ => .rfl⟩ 0 = some ((batches rank).map some, used)) ∧
      Plan (fun i => min ([2, 3, 4].getD i 0) 4) valid 4 2 batches :=
  ⟨generateBatches_plan stableArgSort ⟨fun _ => id, fun _ _ => .rfl⟩ 4 [2, 3, 5, 1] (by decide) true 0 (by decide) [1] 0,
    generateBatches_plan stableArgSort ⟨fun _ => id, fun _ _ => .rfl⟩ 4 [2, 3, 5, 1] (by decide) false 0 (by decide) [] 0,
    generateBatches_plan stableArgSort ⟨fun _ => id, fun _ _ => .rfl⟩ 4 [2, 3, 4] (by decide) true 0 (by decide) [] 0⟩

end DreamAifd.Multipack
