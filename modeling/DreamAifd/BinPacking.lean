import DreamAifd.FirstMin

/-! Placing items one after the other into the least full of some bins, the first of them where
several are equally full. -/
namespace DreamAifd.BinPacking

open FirstMin

variable {κ : Type*}

/-- Items with their sizes and the bins they are placed in; none where one does not fit anywhere. -/
def place (capacity : Nat) : List Nat → List (κ × Nat) → Option (List ((κ × Nat) × Nat))
  | _, [] => some []
  | fills, item :: items =>
    let bin := argmin fills
    let newFill := fills.getD bin 0 + item.2
    if capacity < newFill then none
    else (place capacity (fills.set bin newFill) items).map ((item, bin) :: ·)

def inBin (placed : List ((κ × Nat) × Nat)) (bin : Nat) : List (κ × Nat) :=
  (placed.filter (·.2 = bin)).map (·.1)

variable {capacity : Nat} {fills : List Nat} {items : List (κ × Nat)} {placed : List ((κ × Nat) × Nat)}

theorem place_cons {item : κ × Nat} (done : place capacity fills (item :: items) = some placed) :
    fills.getD (argmin fills) 0 + item.2 ≤ capacity ∧ ∃ rest,
      place capacity (fills.set (argmin fills) (fills.getD (argmin fills) 0 + item.2)) items = some rest ∧
        placed = (item, argmin fills) :: rest := by
  rw [place] at done
  split at done
  · contradiction
  next fits =>
    obtain ⟨rest, later, rfl⟩ := Option.map_eq_some_iff.mp done
    exact ⟨Nat.le_of_not_lt fits, rest, later, rfl⟩

theorem place_items (done : place capacity fills items = some placed) : placed.map (·.1) = items := by
  induction items generalizing fills placed with
  | nil =>
    cases done
    rfl
  | cons item items ih =>
    obtain ⟨-, rest, later, rfl⟩ := place_cons done
    rw [List.map_cons, ih later]

theorem place_bins (some_bin : fills ≠ []) (done : place capacity fills items = some placed) :
    ∀ p ∈ placed, p.2 < fills.length := by
  induction items generalizing fills placed with
  | nil =>
    cases done
    simp
  | cons item items ih =>
    obtain ⟨-, rest, later, rfl⟩ := place_cons done
    have tail := ih (by simpa using some_bin) later
    rw [List.length_set] at tail
    intro p member
    rcases List.mem_cons.mp member with rfl | member
    · exact argmin_lt_length fills some_bin
    · exact tail p member

theorem inBin_cons (item : κ × Nat) (bin other : Nat) (placed : List ((κ × Nat) × Nat)) :
    inBin ((item, bin) :: placed) other = if bin = other then item :: inBin placed other else inBin placed other := by
  rw [inBin, List.filter_cons]
  by_cases same : bin = other
  · simp [same, inBin]
  · simp [same, inBin]

/-- No bin is filled beyond its capacity. -/
theorem place_fits (within : ∀ fill ∈ fills, fill ≤ capacity)
    (done : place capacity fills items = some placed) {bin : Nat} (inside : bin < fills.length) :
    fills[bin] + ((inBin placed bin).map (·.2)).sum ≤ capacity := by
  induction items generalizing fills placed with
  | nil =>
    cases done
    exact within _ (List.getElem_mem inside)
  | cons item items ih =>
    obtain ⟨fits, rest, later, rfl⟩ := place_cons done
    have filled : ∀ fill ∈ fills.set (argmin fills) (fills.getD (argmin fills) 0 + item.2), fill ≤ capacity :=
      fun fill member => (List.mem_or_eq_of_mem_set member).elim (within fill) (· ▸ fits)
    have tail := ih filled later (by rwa [List.length_set])
    rw [inBin_cons]
    by_cases here : argmin fills = bin
    · rw [if_pos here, List.map_cons, List.sum_cons]
      rw [List.getElem_set, if_pos here, here, List.getD_eq_getElem _ _ inside] at tail
      omega
    · rw [List.getElem_set, if_neg here] at tail
      rwa [if_neg here]

/-- The bin an item goes to is empty as long as one is. -/
theorem getD_argmin_eq_zero (empty : 0 ∈ fills) : fills.getD (argmin fills) 0 = 0 :=
  Nat.le_zero.mp (getD_argmin_le fills 0 0 empty)

theorem count_zero_set (empty : 0 ∈ fills) {size : Nat} (positive : 0 < size) :
    (fills.set (argmin fills) (fills.getD (argmin fills) 0 + size)).count 0 = fills.count 0 - 1 := by
  have inside := argmin_lt_length fills (List.ne_nil_of_mem empty)
  have zero := getD_argmin_eq_zero empty
  rw [List.count_set inside, zero]
  rw [List.getD_eq_getElem _ _ inside] at zero
  simp [zero, positive.ne']

/-- With an item for every empty bin none stays empty. -/
theorem place_nonempty (positive : ∀ item ∈ items, 0 < item.2) (enough : fills.count 0 ≤ items.length)
    (done : place capacity fills items = some placed) {bin : Nat} (inside : bin < fills.length)
    (empty : fills[bin] = 0) : inBin placed bin ≠ [] := by
  induction items generalizing fills placed with
  | nil =>
    have some_empty := List.count_pos_iff.mpr (empty ▸ List.getElem_mem inside)
    simp only [List.length_nil] at enough
    omega
  | cons item items ih =>
    obtain ⟨-, rest, later, rfl⟩ := place_cons done
    have zero : 0 ∈ fills := empty ▸ List.getElem_mem inside
    have size := positive item (by simp)
    rw [inBin_cons]
    by_cases here : argmin fills = bin
    · rw [if_pos here]
      exact List.cons_ne_nil _ _
    · rw [if_neg here]
      refine ih (fun other member => positive other (by simp [member])) ?_ later
        (by rwa [List.length_set]) (by rwa [List.getElem_set_ne here])
      rw [count_zero_set zero size]
      simp only [List.length_cons] at enough
      omega

/-- No more items than empty bins always find a place. -/
theorem place_isSome (positive : ∀ item ∈ items, 0 < item.2) (small : ∀ item ∈ items, item.2 ≤ capacity)
    (few : items.length ≤ fills.count 0) : (place capacity fills items).isSome := by
  induction items generalizing fills with
  | nil => rfl
  | cons item items ih =>
    simp only [List.length_cons] at few
    have empty : 0 ∈ fills := List.count_pos_iff.mp (by omega)
    have fits : ¬ capacity < fills.getD (argmin fills) 0 + item.2 := by
      rw [getD_argmin_eq_zero empty, Nat.zero_add]
      exact Nat.not_lt.mpr (small item (by simp))
    rw [place]
    rw [if_neg fits, Option.isSome_map]
    apply ih (fun other member => positive other (by simp [member]))
      (fun other member => small other (by simp [member]))
    rw [count_zero_set empty (positive item (by simp))]
    omega

theorem flatMap_single {n bin : Nat} (inside : bin < n) (x : κ) :
    (List.range n).flatMap (fun r => if bin = r then [x] else []) = [x] := by
  induction n with
  | zero => exact absurd inside (Nat.not_lt_zero bin)
  | succ n ih =>
    rw [List.range_succ, List.flatMap_append, List.flatMap_singleton]
    by_cases last : bin = n
    · have earlier : (List.range n).flatMap (fun r => if bin = r then [x] else []) = [] := by
        rw [List.flatMap_eq_nil_iff]
        intro r member
        have before := List.mem_range.mp member
        rw [if_neg (by omega)]
      rw [earlier, if_pos last, List.nil_append]
    · rw [ih (by omega), if_neg last, List.append_nil]

/-- The bins together hold every item once. -/
theorem perm_inBin {n : Nat} (bins : ∀ p ∈ placed, p.2 < n) :
    ((List.range n).flatMap (inBin placed)).Perm (placed.map (·.1)) := by
  induction placed with
  | nil =>
    have none : (List.range n).flatMap (inBin ([] : List ((κ × Nat) × Nat))) = [] :=
      List.flatMap_eq_nil_iff.mpr fun _ _ => rfl
    rw [none]
    exact .nil
  | cons p placed ih =>
    obtain ⟨item, bin⟩ := p
    have split : inBin ((item, bin) :: placed) = fun r => (if bin = r then [item] else []) ++ inBin placed r := by
      funext r
      rw [inBin_cons]
      split <;> rfl
    have inside : bin < n := bins (item, bin) (by simp)
    rw [split, List.map_cons]
    refine (List.flatMap_append_perm _ _ _).symm.trans ?_
    rw [flatMap_single inside, List.singleton_append]
    exact (ih fun q member => bins q (by simp [member])).cons item

end DreamAifd.BinPacking
