import Mathlib

/-! Numbers of a floating-point format under its comparison, where the value that is not a number compares
with nothing. A least value is kept by one comparison for each new value as long as all are numbers. -/
namespace DreamAifd

inductive FloatNumber (α : Type*) where
  | nan
  | number (value : α)
  deriving DecidableEq, Repr

namespace FloatNumber

variable {α : Type*} [LinearOrder α]

def ge : FloatNumber α → FloatNumber α → Bool
  | number x, number y => y ≤ x
  | _, _ => false

@[simp] theorem ge_number (x y : α) : (number x).ge (number y) = decide (y ≤ x) := rfl

@[simp] theorem nan_ge (x : FloatNumber α) : nan.ge x = false := rfl

@[simp] theorem ge_nan (x : FloatNumber α) : x.ge nan = false := by
  cases x <;> rfl

theorem ge_self {x : FloatNumber α} (number : x ≠ nan) : x.ge x := by
  cases x with
  | nan => exact absurd rfl number
  | number x => simp

theorem ge_trans {x y z : FloatNumber α} (first : x.ge y) (second : y.ge z) : x.ge z := by
  cases x <;> cases y <;> cases z <;> simp_all
  exact le_trans second first

/-- Of two numbers one is at most the other. -/
theorem ge_of_not_ge {x y : FloatNumber α} (number : x ≠ nan) (other : y ≠ nan) (below : x.ge y = false) :
    y.ge x := by
  cases x <;> cases y <;> simp_all
  exact below.le

/-- A number that no value of the list is below. -/
structure LowerBound (best : FloatNumber α) (values : List (FloatNumber α)) : Prop where
  number : best ≠ nan
  below : ∀ value ∈ values, value.ge best

namespace LowerBound

variable {best value : FloatNumber α} {values : List (FloatNumber α)}

theorem nil (number : best ≠ nan) : LowerBound best [] :=
  ⟨number, fun _ member => absurd member List.not_mem_nil⟩

/-- A value that is not below the bound leaves it. -/
theorem concat (bound : LowerBound best values) (above : value.ge best) : LowerBound best (values ++ [value]) := by
  refine ⟨bound.number, fun other member => ?_⟩
  rcases List.mem_append.mp member with earlier | last
  · exact bound.below other earlier
  · rw [List.mem_singleton.mp last]
    exact above

/-- A number that is below the bound replaces it. -/
theorem replace (bound : LowerBound best values) (number : value ≠ nan) (below : value.ge best = false) :
    LowerBound value (values ++ [value]) := by
  refine ⟨number, fun other member => ?_⟩
  rcases List.mem_append.mp member with earlier | last
  · exact ge_trans (bound.below other earlier) (ge_of_not_ge number bound.number below)
  · rw [List.mem_singleton.mp last]
    exact ge_self number

end LowerBound

end FloatNumber

end DreamAifd
