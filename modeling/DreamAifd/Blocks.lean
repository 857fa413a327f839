import Mathlib

/-! Walking over a row in blocks of lanes. The last block may reach past the end of the row, where its
lanes are masked. -/
namespace DreamAifd.Blocks

variable {β : Type*}

def starts (n blockSize : Nat) : List Nat := (List.range ((n + blockSize - 1) / blockSize)).map (· * blockSize)

def load (row : Nat → β) (n : Nat) (other : β) (blockSize i : Nat) : List β :=
  (List.range blockSize).map fun lane => if i + lane < n then row (i + lane) else other

def store (ptr n blockSize : Nat) (value : Nat → β) (memory : Nat → β) (i : Nat) : Nat → β :=
  (List.range blockSize).foldl (fun memory lane =>
    if i + lane < n then Function.update memory (ptr + (i + lane)) (value (i + lane)) else memory) memory

theorem le_lanes {blockSize : Nat} (positive : 0 < blockSize) (n : Nat) :
    n ≤ (n + blockSize - 1) / blockSize * blockSize := by
  have split := Nat.div_add_mod' (n + blockSize - 1) blockSize
  have rest := Nat.mod_lt (n + blockSize - 1) positive
  omega

theorem flatMap_lanes (f : Nat → β) (blockSize count : Nat) :
    ((List.range count).map (· * blockSize)).flatMap (fun i => (List.range blockSize).map fun lane => f (i + lane)) =
      (List.range (count * blockSize)).map f := by
  induction count with
  | zero => rw [Nat.zero_mul]; rfl
  | succ count ih =>
    rw [List.range_succ, List.map_append, List.flatMap_append, ih, Nat.succ_mul, List.range_add, List.map_append,
      List.map_map]
    congr 1
    exact List.append_nil _

theorem map_range_masked (row : Nat → β) {n m : Nat} (inside : n ≤ m) (other : β) :
    ((List.range m).map fun v => if v < n then row v else other) =
      (List.range n).map row ++ List.replicate (m - n) other := by
  obtain ⟨k, rfl⟩ := Nat.exists_eq_add_of_le inside
  rw [List.range_add, List.map_append, List.map_map, Nat.add_sub_cancel_left]
  congr 1
  · exact List.map_congr_left fun v member => if_pos (List.mem_range.mp member)
  · rw [← List.length_range (n := k), ← List.map_const, List.length_range]
    exact List.map_congr_left fun v _ => if_neg (Nat.not_lt.mpr (Nat.le_add_right n v))

/-- The blocks of a row are the row, and masked lanes behind it. -/
theorem flatMap_load {blockSize : Nat} (positive : 0 < blockSize) (row : Nat → β) (n : Nat) (other : β) :
    ∃ k, (starts n blockSize).flatMap (load row n other blockSize) = (List.range n).map row ++ List.replicate k other :=
  ⟨_, (flatMap_lanes (fun v => if v < n then row v else other) blockSize _).trans
    (map_range_masked row (le_lanes positive n) other)⟩

/-- Sums over the blocks, with nothing from masked lanes, add up to the sum over the row. -/
theorem sum_blocks {blockSize : Nat} (positive : 0 < blockSize) (f : Nat → ℝ) (n : Nat) :
    ((starts n blockSize).map fun i => (load f n 0 blockSize i).sum).sum = ∑ v ∈ Finset.range n, f v := by
  obtain ⟨k, joined⟩ := flatMap_load positive f n 0
  calc ((starts n blockSize).map fun i => (load f n 0 blockSize i).sum).sum
      = ((starts n blockSize).flatMap (load f n 0 blockSize)).sum := by
        rw [List.flatMap, List.sum_flatten, List.map_map]
        rfl
    _ = ((List.range n).map f).sum := by
        rw [joined, List.sum_append, List.sum_replicate, smul_zero, add_zero]
    _ = ∑ v ∈ Finset.range n, f v := rfl

/-- What a block writes, and where. -/
theorem store_apply (ptr n blockSize : Nat) (value memory : Nat → β) (i address : Nat) :
    store ptr n blockSize value memory i address =
      if ptr + i ≤ address ∧ address < ptr + i + blockSize ∧ address < ptr + n then value (address - ptr)
      else memory address := by
  induction blockSize with
  | zero =>
    rw [if_neg (by omega)]
    rfl
  | succ blockSize ih =>
    rw [store, List.range_succ, List.foldl_append, List.foldl_cons, List.foldl_nil, ← store]
    split
    next inside =>
      by_cases here : address = ptr + (i + blockSize)
      · subst here
        rw [Function.update_self, if_pos (by omega), Nat.add_sub_cancel_left]
      · rw [Function.update_of_ne here, ih]
        exact if_congr (by omega) rfl rfl
    next outside =>
      rw [ih]
      exact if_congr (by omega) rfl rfl

/-- All blocks together write the row and nothing else. -/
theorem foldl_store {blockSize : Nat} (positive : 0 < blockSize) (ptr n : Nat) (value memory : Nat → β)
    (address : Nat) : (starts n blockSize).foldl (store ptr n blockSize value) memory address =
      if ptr ≤ address ∧ address < ptr + n then value (address - ptr) else memory address := by
  have partly (count : Nat) : ((List.range count).map (· * blockSize)).foldl (store ptr n blockSize value) memory
      address = if ptr ≤ address ∧ address < ptr + count * blockSize ∧ address < ptr + n then value (address - ptr)
        else memory address := by
    induction count with
    | zero => rw [if_neg (by omega)]; rfl
    | succ count ih =>
      rw [List.range_succ, List.map_append, List.foldl_append, List.map_singleton, List.foldl_cons, List.foldl_nil,
        store_apply, ih, Nat.succ_mul, ← ite_or]
      exact if_congr (by omega) rfl rfl
  have whole := le_lanes positive n
  rw [starts, partly]
  exact if_congr (by omega) rfl rfl

end DreamAifd.Blocks
