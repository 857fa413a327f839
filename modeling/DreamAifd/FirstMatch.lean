import Mathlib.Data.List.Basic
import Mathlib.Data.List.Perm.Basic
import Mathlib.Tactic

/-! The first match in a list. It does not depend on the order of the list just where there is nothing to
choose from. -/
namespace DreamAifd.FirstMatch

variable {α β : Type*} {xs : List α} {p : α → Bool}

theorem find?_eq_of_unique {ys : List α} (permuted : ys.Perm xs)
    (unique : ∀ x ∈ xs, ∀ y ∈ xs, p x → p y → x = y) : ys.find? p = xs.find? p := by
  cases found : xs.find? p with
  | none =>
    rw [List.find?_eq_none] at found ⊢
    exact fun y member => found y (permuted.subset member)
  | some x =>
    have here := List.mem_of_find?_eq_some found
    have holds := List.find?_some found
    cases other : ys.find? p with
    | none => exact absurd holds (List.find?_eq_none.mp other x (permuted.symm.subset here))
    | some y =>
      have there := permuted.subset (List.mem_of_find?_eq_some other)
      rw [unique x here y there holds (List.find?_some other)]

/-- Every match is the first one in some order. -/
theorem exists_perm_find? {x : α} (member : x ∈ xs) (holds : p x) :
    ∃ ys : List α, ys.Perm xs ∧ ys.find? p = some x := by
  obtain ⟨before, behind, rfl⟩ := List.append_of_mem member
  exact ⟨x :: (before ++ behind), List.perm_middle.symm, by rw [List.find?_cons, holds]⟩

/-- Of several attempts the first that finds something decides. -/
theorem findSome?_eq_bind_find? {attempt : α → Option β} (finds : ∀ x, (attempt x).isSome = p x) :
    xs.findSome? attempt = (xs.find? p).bind attempt := by
  induction xs with
  | nil => rfl
  | cons x xs ih =>
    rw [List.findSome?_cons, List.find?_cons, ← finds x]
    cases found : attempt x with
    | none => exact ih
    | some y => exact found.symm

/-- Where no key is there twice, its entry is found in any order. -/
theorem lookup_perm [DecidableEq α] {entries others : List (α × β)} (permuted : others.Perm entries)
    (distinct : (entries.map Prod.fst).Nodup) (key : α) : others.lookup key = entries.lookup key := by
  have finds (entry : α × β) : (if key == entry.1 then some entry.2 else none).isSome = (key == entry.1) := by
    split <;> simp_all
  have unique : ∀ x ∈ entries, ∀ y ∈ entries, key == x.1 → key == y.1 → x = y := by
    intro x member y other first second
    exact List.inj_on_of_nodup_map distinct member other ((eq_of_beq first).symm.trans (eq_of_beq second))
  rw [List.lookup_eq_findSome?, List.lookup_eq_findSome?, findSome?_eq_bind_find? finds, findSome?_eq_bind_find? finds,
    find?_eq_of_unique permuted unique]

end DreamAifd.FirstMatch
