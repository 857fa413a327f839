import Mathlib

/-! Digests that are chained over a sequence: each takes in the digest before it and the next
item. Without collisions a digest names the whole sequence up to its own item. -/
namespace DreamAifd

variable {η χ : Type*}

/-- No two inputs have one digest, and none has the digest the chain starts from. -/
structure CollisionFree (f : η → χ → η) (start : η) : Prop where
  inj : ∀ {h h' x x'}, f h x = f h' x' → h = h' ∧ x = x'
  ne_start : ∀ h x, f h x ≠ start

def digests (f : η → χ → η) : η → List χ → List η
  | _, [] => []
  | h, x :: items => f h x :: digests f (f h x) items

variable {f : η → χ → η} {start : η}

@[simp] theorem length_digests (h : η) (items : List χ) : (digests f h items).length = items.length := by
  induction items generalizing h with
  | nil => rfl
  | cons x items ih => rw [digests, List.length_cons, List.length_cons, ih]

theorem digests_append (h : η) (front back : List χ) :
    digests f h (front ++ back) = digests f h front ++ digests f (front.foldl f h) back := by
  induction front generalizing h with
  | nil => rfl
  | cons x front ih => rw [List.cons_append, digests, digests, ih, List.cons_append, List.foldl_cons]

theorem getElem?_digests {h : η} {items : List χ} {i : Nat} (bound : i < items.length) :
    (digests f h items)[i]? = some ((items.take (i + 1)).foldl f h) := by
  induction items generalizing h i with
  | nil => exact absurd bound (Nat.not_lt_zero i)
  | cons x items ih =>
    cases i with
    | zero => rfl
    | succ i => exact ih (Nat.lt_of_succ_lt_succ bound)

/-- The digest a chain goes on from. -/
theorem getLast?_digests (h : η) (items : List χ) :
    ((digests f h items).getLast?).getD h = items.foldl f h := by
  obtain rfl | ⟨front, last, rfl⟩ := items.eq_nil_or_concat
  · rfl
  · rw [List.concat_eq_append, digests_append]
    simp [digests]

theorem CollisionFree.foldl_inj (free : CollisionFree f start) {items items' : List χ}
    (same : items.foldl f start = items'.foldl f start) : items = items' := by
  induction items using List.reverseRecOn generalizing items' with
  | nil =>
    obtain rfl | ⟨front, last, rfl⟩ := items'.eq_nil_or_concat
    · rfl
    · rw [List.concat_eq_append, List.foldl_concat] at same
      exact absurd same.symm (free.ne_start _ _)
  | append_singleton front last ih =>
    rw [List.foldl_concat] at same
    obtain rfl | ⟨front', last', rfl⟩ := items'.eq_nil_or_concat
    · exact absurd same (free.ne_start _ _)
    · rw [List.concat_eq_append, List.foldl_concat] at same
      obtain ⟨before, rfl⟩ := free.inj same
      rw [ih before, List.concat_eq_append]

end DreamAifd
