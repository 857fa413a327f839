import Mathlib

/-! Consecutive chunks of `n` items that are as even as possible: the first `n % w` of `w` chunks have one
item more than the others. -/
namespace DreamAifd.Chunks

def chunkSize (n w r : Nat) : Nat := n / w + if r < n % w then 1 else 0

def chunkStart (n w r : Nat) : Nat := r * (n / w) + min r (n % w)

variable {n w r : Nat}

@[simp] theorem chunkStart_zero (n w : Nat) : chunkStart n w 0 = 0 := by simp [chunkStart]

theorem chunkStart_succ (n w r : Nat) : chunkStart n w (r + 1) = chunkStart n w r + chunkSize n w r := by
  rw [chunkStart, chunkStart, chunkSize, Nat.add_one_mul]
  split <;> omega

/-- The chunks end where the items do. -/
theorem chunkStart_self (positive : 0 < w) : chunkStart n w w = n := by
  rw [chunkStart, Nat.min_eq_right (Nat.mod_lt n positive).le]
  exact Nat.div_add_mod n w

theorem chunkStart_mono (n w : Nat) : Monotone (chunkStart n w) :=
  monotone_nat_of_le_succ fun r => chunkStart_succ n w r ▸ Nat.le_add_right _ _

theorem chunkSize_le (n w r s : Nat) : chunkSize n w r ≤ chunkSize n w s + 1 := by
  rw [chunkSize, chunkSize]
  split <;> omega

/-- An item lies in a chunk: the starts rise from 0 to beyond it. -/
theorem exists_chunk (positive : 0 < w) {i : Nat} (inside : i < n) :
    ∃ r < w, chunkStart n w r ≤ i ∧ i < chunkStart n w r + chunkSize n w r := by
  have reaches (k : Nat) (passed : i < chunkStart n w k) :
      ∃ r < k, chunkStart n w r ≤ i ∧ i < chunkStart n w r + chunkSize n w r := by
    induction k with
    | zero => simp at passed
    | succ k ih =>
      by_cases earlier : i < chunkStart n w k
      · obtain ⟨r, below, here⟩ := ih earlier
        exact ⟨r, below.trans (Nat.lt_succ_self k), here⟩
      · exact ⟨k, Nat.lt_succ_self k, Nat.not_lt.mp earlier, chunkStart_succ n w k ▸ passed⟩
  exact reaches w ((chunkStart_self positive).symm ▸ inside)

/-- And in one only. -/
theorem chunk_unique {s i : Nat} (first : chunkStart n w r ≤ i ∧ i < chunkStart n w r + chunkSize n w r)
    (second : chunkStart n w s ≤ i ∧ i < chunkStart n w s + chunkSize n w s) : r = s := by
  rw [← chunkStart_succ] at first second
  rcases Nat.lt_trichotomy r s with before | same | behind
  · have apart := chunkStart_mono n w before
    rw [Nat.succ_eq_add_one] at apart
    omega
  · exact same
  · have apart := chunkStart_mono n w behind
    rw [Nat.succ_eq_add_one] at apart
    omega

theorem chunk_le (ranked : r < w) : chunkStart n w r + chunkSize n w r ≤ n := by
  rw [← chunkStart_succ]
  exact (chunkStart_mono n w ranked).trans_eq (chunkStart_self (Nat.zero_lt_of_lt ranked))

end DreamAifd.Chunks
