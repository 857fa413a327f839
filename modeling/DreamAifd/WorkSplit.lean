import DreamAifd.OutputValidation

/-! The work of offline generation on several nodes. Each node goes by its own rank and by the files it
finds; together they generate every sample that is missing once. -/
namespace DreamAifd.WorkSplit

open Chunks OutputValidation

/-- The lists of the ranks cut up the samples that are left to generate. -/
structure SplitsWork (numSamples : Nat) (maxSamples : Option Int) (existing : List Nat) (worldSize : Nat) : Prop where
  increasing (rank : Nat) (ranked : rank < worldSize) :
    (getIndicesToProcess numSamples maxSamples existing worldSize rank).Pairwise (· < ·)
  disjoint (rank other : Nat) (ranked : rank < worldSize) (otherRanked : other < worldSize) (different : rank ≠ other) :
    (getIndicesToProcess numSamples maxSamples existing worldSize rank).Disjoint
      (getIndicesToProcess numSamples maxSamples existing worldSize other)
  union (idx : Nat) : (∃ rank < worldSize, idx ∈ getIndicesToProcess numSamples maxSamples existing worldSize rank) ↔
    (idx : Int) < maxSamples.elim (numSamples : Int) (min · numSamples) ∧ idx ∉ existing
  /-- Before the existing ones are removed. -/
  balanced (rank other : Nat) (ranked : rank < worldSize) (otherRanked : other < worldSize) :
    (getIndicesToProcess numSamples maxSamples [] worldSize rank).length ≤
      (getIndicesToProcess numSamples maxSamples [] worldSize other).length + 1

variable {numSamples worldSize rank idx : Nat} {maxSamples : Option Int} {existing : List Nat}

theorem mem_iff : idx ∈ getIndicesToProcess numSamples maxSamples existing worldSize rank ↔
    (chunkStart (maxSamples.elim (numSamples : Int) (min · numSamples)).toNat worldSize rank ≤ idx ∧
      idx < chunkStart (maxSamples.elim (numSamples : Int) (min · numSamples)).toNat worldSize rank +
        chunkSize (maxSamples.elim (numSamples : Int) (min · numSamples)).toNat worldSize rank) ∧
      idx ∉ existing := by
  rw [getIndicesToProcess_eq, List.mem_filter, List.mem_range'_1, decide_eq_true_iff]

theorem length_nothingExisting : (getIndicesToProcess numSamples maxSamples [] worldSize rank).length =
    chunkSize (maxSamples.elim (numSamples : Int) (min · numSamples)).toNat worldSize rank := by
  simp [getIndicesToProcess_eq]

/-- For any number of nodes, of samples and of existing files. -/
theorem getIndicesToProcess_splitsWork (numSamples : Nat) (maxSamples : Option Int) (existing : List Nat)
    {worldSize : Nat} (positive : 0 < worldSize) : SplitsWork numSamples maxSamples existing worldSize := by
  constructor
  case increasing =>
    intro rank _
    rw [getIndicesToProcess_eq]
    exact (List.pairwise_lt_range' ..).filter _
  case disjoint =>
    intro rank other _ _ different idx here there
    exact different (chunk_unique (mem_iff.mp here).1 (mem_iff.mp there).1)
  case union =>
    intro idx
    constructor
    · rintro ⟨rank, ranked, member⟩
      obtain ⟨⟨-, inside⟩, absent⟩ := mem_iff.mp member
      exact ⟨Int.lt_toNat.mp (inside.trans_le (chunk_le ranked)), absent⟩
    · rintro ⟨inside, absent⟩
      obtain ⟨rank, ranked, here⟩ := exists_chunk positive (Int.lt_toNat.mpr inside)
      exact ⟨rank, ranked, mem_iff.mpr ⟨here, absent⟩⟩
  case balanced =>
    intro rank other _ _
    rw [length_nothingExisting, length_nothingExisting]
    exact chunkSize_le _ _ _ _

/-- More nodes than samples, some of which exist. -/
theorem getIndicesToProcess_fourNodes : SplitsWork 9 (some 3) [1, 7] 4 :=
  getIndicesToProcess_splitsWork 9 (some 3) [1, 7] (by decide)

end DreamAifd.WorkSplit
