import Mathlib

/-! Selecting rows of a sequence by a list of positions, as an array library does along its
first axis. A position past the end raises. -/
namespace DreamAifd.Gather

variable {β γ : Type*}

theorem mapM_some {f : β → Option γ} {g : β → γ} {xs : List β}
    (each : ∀ x ∈ xs, f x = some (g x)) : xs.mapM f = some (xs.map g) := by
  induction xs with
  | nil => rfl
  | cons x xs ih =>
    rw [List.mapM_cons, each x (by simp), ih fun y member => each y (List.mem_cons_of_mem _ member)]
    rfl

theorem map_some_of_mapM {f : β → Option γ} {xs : List β} {ys : List γ}
    (collected : xs.mapM f = some ys) : xs.map f = ys.map some := by
  induction xs generalizing ys with
  | nil => cases collected; rfl
  | cons x xs ih =>
    rw [List.mapM_cons] at collected
    obtain ⟨y, first, collected⟩ := Option.bind_eq_some_iff.mp collected
    obtain ⟨rest, later, same⟩ := Option.bind_eq_some_iff.mp collected
    cases same
    rw [List.map_cons, List.map_cons, first, ih later]

def gather (rows : List β) (idx : List Nat) : Option (List β) := idx.mapM fun i => rows[i]?

theorem gather_get {rows out : List β} {idx : List Nat} (selected : gather rows idx = some out)
    (i : Nat) : out[i]? = idx[i]?.bind (rows[·]?) := by
  have entry := congrArg (·[i]?) (map_some_of_mapM selected)
  simp only [List.getElem?_map] at entry
  cases h : idx[i]? <;> cases h' : out[i]? <;> simp_all

theorem gather_length {rows out : List β} {idx : List Nat}
    (selected : gather rows idx = some out) : out.length = idx.length := by
  simpa using (congrArg List.length (map_some_of_mapM selected)).symm

/-- Whether positions are in range depends on the number of rows only. -/
theorem gather_isSome {rows : List β} {idx : List Nat} :
    (gather rows idx).isSome ↔ ∀ i ∈ idx, i < rows.length := by
  constructor
  · intro inside i member
    obtain ⟨out, selected⟩ := Option.isSome_iff_exists.mp inside
    have entry : rows[i]? ∈ out.map some := by
      rw [← map_some_of_mapM selected]
      exact List.mem_map_of_mem member
    obtain ⟨row, _, held⟩ := List.mem_map.mp entry
    exact (List.getElem?_eq_some_iff.mp held.symm).1
  · intro inside
    rcases rows with _ | ⟨row, rows⟩
    · have none : idx = [] := List.eq_nil_iff_forall_not_mem.mpr fun i member => by
        simpa using inside i member
      simp [none, gather]
    · rw [gather, mapM_some (g := fun i => (row :: rows).getD i row)]
      · rfl
      · intro i member
        simp [List.getElem?_eq_getElem (inside i member)]

theorem gather_range (rows : List β) : gather rows (List.range rows.length) = some rows := by
  have inside : ∀ i ∈ List.range rows.length, i < rows.length := fun i => List.mem_range.mp
  obtain ⟨out, selected⟩ := Option.isSome_iff_exists.mp (gather_isSome.mpr inside)
  rw [selected]
  refine congrArg some (List.ext_getElem? fun i => ?_)
  rw [gather_get selected]
  by_cases bound : i < rows.length <;> simp [bound]

/-- A selection returns every sequence of `n` rows unchanged exactly when it lists the
positions in order. -/
theorem gather_self_iff [Nontrivial β] {n : Nat} {idx : List Nat} :
    (∀ rows : List β, rows.length = n → gather rows idx = some rows) ↔ idx = List.range n := by
  constructor
  · intro unchanged
    obtain ⟨x, y, different⟩ := exists_pair_ne β
    have size : idx.length = n := by
      have selected := unchanged (List.replicate n x) (by simp)
      simpa using (gather_length selected).symm
    apply List.ext_getElem (by simpa using size)
    intro i bound _
    -- rows that differ from the others at position `i` alone
    have selected := unchanged ((List.range n).map fun j => if j = i then y else x) (by simp)
    have entry := gather_get selected i
    rw [List.getElem?_eq_getElem bound, Option.bind_some] at entry
    simp only [List.getElem?_map, List.getElem?_range (size ▸ bound), Option.map_some, if_true]
      at entry
    obtain ⟨j, held, same⟩ := Option.map_eq_some_iff.mp entry.symm
    by_cases here : j = i
    · rw [List.getElem_range]
      rw [List.getElem?_eq_some_iff] at held
      obtain ⟨_, held⟩ := held
      rw [List.getElem_range] at held
      omega
    · rw [if_neg here] at same
      exact absurd same different
  · rintro rfl rows rfl
    exact gather_range rows

end DreamAifd.Gather
