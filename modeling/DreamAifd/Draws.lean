import DreamAifd.Gather

/-! Random subsets of an increasing list. The rows at the first positions of a permutation are taken
and put into order again. -/
namespace DreamAifd.Draws

open Gather

variable {β : Type*} {pool drawn : List β} {perm : List Nat} {k : Nat}

theorem gather_take {rows : List β} (selected : gather pool perm = some rows) (k : Nat) :
    gather pool (perm.take k) = some (rows.take k) := by
  have inside : ∀ i ∈ perm.take k, i < pool.length :=
    fun i member => gather_isSome.mp (selected ▸ rfl) i (List.mem_of_mem_take member)
  obtain ⟨front, taken⟩ := Option.isSome_iff_exists.mp (gather_isSome.mpr inside)
  rw [taken]
  refine congrArg some (List.ext_getElem? fun i => ?_)
  rw [gather_get taken, List.getElem?_take, List.getElem?_take, gather_get selected]
  split <;> rfl

theorem gather_perm (permutes : perm.Perm (List.range pool.length)) :
    ∃ rows, gather pool perm = some rows ∧ rows.Perm pool := by
  have inside : ∀ i ∈ perm, i < pool.length := fun i member => List.mem_range.mp (permutes.mem_iff.mp member)
  obtain ⟨rows, selected⟩ := Option.isSome_iff_exists.mp (gather_isSome.mpr inside)
  refine ⟨rows, selected, ?_⟩
  have same : (rows.map some).Perm (pool.map some) := by
    rw [← map_some_of_mapM selected, ← map_some_of_mapM (gather_range pool)]
    exact permutes.map _
  exact (List.map_perm_map_iff (Option.some_injective β)).mp same

/-- A draw takes as many rows as there are, none twice. -/
theorem draw_subperm (permutes : perm.Perm (List.range pool.length)) (k : Nat) :
    ∃ drawn, gather pool (perm.take k) = some drawn ∧ drawn.length = min k pool.length ∧ drawn.Subperm pool := by
  obtain ⟨rows, selected, same⟩ := gather_perm permutes
  refine ⟨rows.take k, gather_take selected k, ?_, (List.take_sublist k rows).subperm.trans same.subperm⟩
  rw [List.length_take, same.length_eq]

theorem sorted_sublist [LinearOrder β] (increasing : pool.Pairwise (· < ·)) (part : drawn.Subperm pool) :
    (drawn.insertionSort (· ≤ ·)).Sublist pool := by
  apply List.sublist_of_subperm_of_pairwise ((List.perm_insertionSort _ _).subperm.trans part)
    (List.pairwise_insertionSort _ _)
  exact increasing.imp le_of_lt

/-- In order again, the rows drawn are some of the pool's. -/
theorem sortedDraw_sublist [LinearOrder β] (increasing : pool.Pairwise (· < ·))
    (permutes : perm.Perm (List.range pool.length)) (picked : gather pool (perm.take k) = some drawn) :
    (drawn.insertionSort (· ≤ ·)).Sublist pool ∧ (drawn.insertionSort (· ≤ ·)).length = min k pool.length := by
  obtain ⟨rows, taken, count, part⟩ := draw_subperm permutes k
  obtain rfl : rows = drawn := Option.some.inj (taken.symm.trans picked)
  exact ⟨sorted_sublist increasing part, (List.length_insertionSort _ _).trans count⟩

end DreamAifd.Draws
