import Mathlib.Order.Basic
import Mathlib.Data.List.Basic
import Mathlib.Tactic

/-! Bisection of a sorted list to the left of equal entries. -/
namespace DreamAifd.Bisect

variable {α : Type*} [LinearOrder α]

/-- The loop on the interval from `lo` up to `hi`, with fuel for its length. -/
def bisectLoop (a : List α) (x : α) : Nat → Nat → Nat → Nat
  | 0, lo, _ => lo
  | fuel + 1, lo, hi =>
    if lo < hi then
      let mid := (lo + hi) / 2
      if a[mid]?.any (· < x) then bisectLoop a x fuel (mid + 1) hi
      else bisectLoop a x fuel lo mid
    else lo

def bisectLeft (a : List α) (x : α) : Nat := bisectLoop a x a.length 0 a.length

/-- Entries in front of the interval are below `x`, entries behind it are not. -/
structure Bracket (a : List α) (x : α) (lo hi : Nat) : Prop where
  ordered : lo ≤ hi
  inside : hi ≤ a.length
  below : ∀ i (hi : i < a.length), i < lo → a[i] < x
  above : ∀ i (hi' : i < a.length), hi ≤ i → x ≤ a[i]

theorem getElem_le {a : List α} (sorted : a.Pairwise (· ≤ ·)) {i j : Nat} (hj : j < a.length)
    (before : i ≤ j) : a[i] ≤ a[j] := by
  rcases before.lt_or_eq with less | rfl
  · exact List.pairwise_iff_getElem.mp sorted i j (less.trans hj) hj less
  · exact le_rfl

theorem bisectLoop_bracket {a : List α} {x : α} (sorted : a.Pairwise (· ≤ ·)) (fuel lo hi : Nat)
    (bracket : Bracket a x lo hi) (enough : hi - lo ≤ fuel) :
    Bracket a x (bisectLoop a x fuel lo hi) (bisectLoop a x fuel lo hi) := by
  induction fuel generalizing lo hi with
  | zero =>
    obtain rfl : lo = hi := le_antisymm bracket.ordered (by omega)
    exact bracket
  | succ fuel ih =>
    have inside := bracket.inside
    rw [bisectLoop]
    split
    next open_ =>
      have middle : (lo + hi) / 2 < a.length := by omega
      simp only [List.getElem?_eq_getElem middle, Option.any_some, decide_eq_true_eq]
      split
      next low =>
        refine ih _ _ ?_ (by omega)
        refine ⟨by omega, inside, fun i hi before => ?_, bracket.above⟩
        exact (getElem_le sorted middle (by omega)).trans_lt low
      next high =>
        refine ih _ _ ?_ (by omega)
        refine ⟨by omega, by omega, bracket.below, fun i hi behind => ?_⟩
        exact (not_lt.mp high).trans (getElem_le sorted hi behind)
    next closed =>
      obtain rfl : lo = hi := le_antisymm bracket.ordered (by omega)
      exact bracket

/-- The number of entries below `x`, which stand in front. -/
theorem bisectLeft_bracket {a : List α} (x : α) (sorted : a.Pairwise (· ≤ ·)) :
    Bracket a x (bisectLeft a x) (bisectLeft a x) := by
  apply bisectLoop_bracket sorted
  · exact ⟨Nat.zero_le _, le_rfl, fun i _ before => absurd before (Nat.not_lt_zero i),
      fun i hi behind => absurd hi (Nat.not_lt.mpr behind)⟩
  · exact le_rfl

end DreamAifd.Bisect
