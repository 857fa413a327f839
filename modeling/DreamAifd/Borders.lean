import Mathlib

/-! Borders of the beginnings of a sequence: parts of the front that come again at the end. -/
namespace DreamAifd.Borders

variable {α : Type*} {t : Nat → α} {u v i : Nat}

/-- The first `v` entries are the last `v` of the first `i`. -/
def Border (t : Nat → α) (v i : Nat) : Prop := v ≤ i ∧ ∀ j < v, t j = t (i - v + j)

theorem border_zero (i : Nat) : Border t 0 i := ⟨Nat.zero_le i, fun _ none_below => absurd none_below (Nat.not_lt_zero _)⟩

theorem Border.trans (inner : Border t u v) (outer : Border t v i) : Border t u i := by
  refine ⟨le_trans inner.1 outer.1, fun j small => ?_⟩
  have place : i - v + (v - u + j) = i - u + j := by
    have := inner.1
    have := outer.1
    omega
  rw [inner.2 j small, outer.2 (v - u + j) (by have := inner.1; omega), place]

/-- Of two borders the smaller one is a border of the larger one. -/
theorem Border.of_le (small : Border t u i) (large : Border t v i) (le : u ≤ v) : Border t u v := by
  refine ⟨le, fun j inside => ?_⟩
  have place : i - v + (v - u + j) = i - u + j := by
    have := large.1
    omega
  rw [small.2 j inside, large.2 (v - u + j) (by omega), place]

theorem border_succ_iff (le : v ≤ i) : Border t (v + 1) (i + 1) ↔ Border t v i ∧ t v = t i := by
  have place : i + 1 - (v + 1) = i - v := by omega
  refine ⟨fun ⟨_, same⟩ => ⟨⟨le, fun j small => ?_⟩, ?_⟩, fun ⟨⟨_, same⟩, next⟩ => ⟨Nat.succ_le_succ le, fun j small => ?_⟩⟩
  · rw [same j (Nat.lt_succ_of_lt small), place]
  · rw [same v (Nat.lt_succ_self v), place, Nat.sub_add_cancel le]
  · rw [place]
    rcases Nat.lt_or_eq_of_le (Nat.le_of_lt_succ small) with before | rfl
    · exact same j before
    · rw [Nat.sub_add_cancel le, next]

structure Longest (t : Nat → α) (b i : Nat) : Prop where
  border : Border t b i
  lt : b < i
  longest : ∀ v < i, Border t v i → v ≤ b

end DreamAifd.Borders
