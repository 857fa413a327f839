import Mathlib

/-! Softmax weights of finitely many logits and their entropy. The entropy is the log-sum-exp
less the mean logit; it is at most the logarithm of the number of logits, which only equal
logits attain. -/
namespace DreamAifd.Softmax

open Finset Real

noncomputable def partition (n : Nat) (x : Nat → ℝ) : ℝ := ∑ j ∈ range n, exp (x j)

noncomputable def logSumExp (n : Nat) (x : Nat → ℝ) : ℝ := log (partition n x)

noncomputable def softmax (n : Nat) (x : Nat → ℝ) (j : Nat) : ℝ := exp (x j) / partition n x

noncomputable def entropy (n : Nat) (x : Nat → ℝ) : ℝ := ∑ j ∈ range n, negMulLog (softmax n x j)

variable {n : Nat} {x : Nat → ℝ}

theorem partition_pos (positive : 0 < n) (x : Nat → ℝ) : 0 < partition n x :=
  sum_pos (fun j _ => exp_pos (x j)) (nonempty_range_iff.mpr positive.ne')

theorem softmax_pos (positive : 0 < n) (x : Nat → ℝ) (j : Nat) : 0 < softmax n x j :=
  div_pos (exp_pos _) (partition_pos positive x)

theorem sum_softmax (positive : 0 < n) (x : Nat → ℝ) : ∑ j ∈ range n, softmax n x j = 1 := by
  simp only [softmax]
  rw [← sum_div]
  exact div_self (partition_pos positive x).ne'

theorem log_softmax (positive : 0 < n) (x : Nat → ℝ) (j : Nat) :
    log (softmax n x j) = x j - logSumExp n x := by
  rw [softmax, log_div (exp_pos _).ne' (partition_pos positive x).ne', log_exp, logSumExp]

theorem entropy_eq (positive : 0 < n) (x : Nat → ℝ) :
    entropy n x = logSumExp n x - ∑ j ∈ range n, softmax n x j * x j := by
  have each (j : Nat) : negMulLog (softmax n x j) =
      softmax n x j * logSumExp n x - softmax n x j * x j := by
    rw [negMulLog, log_softmax positive]
    ring
  simp only [entropy, each]
  rw [sum_sub_distrib, ← sum_mul, sum_softmax positive, one_mul]

theorem entropy_congr {y : Nat → ℝ} (same : ∀ j < n, x j = y j) : entropy n x = entropy n y := by
  have total : partition n x = partition n y :=
    sum_congr rfl fun j member => by rw [same j (mem_range.mp member)]
  apply sum_congr rfl
  intro j member
  rw [softmax, softmax, total, same j (mem_range.mp member)]

theorem entropy_zero (n : Nat) : entropy n (fun _ => 0) = log n := by
  rcases Nat.eq_zero_or_pos n with rfl | positive
  · simp [entropy]
  · rw [entropy_eq positive]
    simp [logSumExp, partition]

/-- Entropy lost against equal weights, term by term. -/
theorem negMulLog_le {p : ℝ} (weight : 0 < p) (positive : 0 < n) :
    negMulLog p ≤ p * log n + ((n : ℝ)⁻¹ - p) ∧
      (p ≠ (n : ℝ)⁻¹ → negMulLog p < p * log n + ((n : ℝ)⁻¹ - p)) := by
  have count : (0 : ℝ) < n := Nat.cast_pos.mpr positive
  have ratio : 0 < (n * p)⁻¹ := inv_pos.mpr (mul_pos count weight)
  have shift : negMulLog p - p * log n = p * log (n * p)⁻¹ := by
    rw [negMulLog, log_inv, log_mul count.ne' weight.ne']
    ring
  have size : p * ((n * p)⁻¹ - 1) = (n : ℝ)⁻¹ - p := by
    field_simp
  constructor
  · have := mul_le_mul_of_nonneg_left (log_le_sub_one_of_pos ratio) weight.le
    linarith
  · intro unequal
    have other : (n * p)⁻¹ ≠ 1 := by
      intro one
      rw [inv_eq_one] at one
      exact unequal (eq_inv_of_mul_eq_one_right one)
    have := mul_lt_mul_of_pos_left (log_lt_sub_one_of_pos ratio other) weight
    linarith

theorem sum_bound (positive : 0 < n) (x : Nat → ℝ) :
    ∑ j ∈ range n, (softmax n x j * log n + ((n : ℝ)⁻¹ - softmax n x j)) = log n := by
  have count : (n : ℝ) ≠ 0 := Nat.cast_ne_zero.mpr positive.ne'
  rw [sum_add_distrib, ← sum_mul, sum_sub_distrib, sum_softmax positive, sum_const, card_range,
    nsmul_eq_mul, mul_inv_cancel₀ count]
  ring

theorem softmax_le_one {j : Nat} (inside : j < n) (x : Nat → ℝ) : softmax n x j ≤ 1 := by
  have positive : 0 < n := Nat.zero_lt_of_lt inside
  rw [← sum_softmax positive x]
  exact single_le_sum (fun k _ => (softmax_pos positive x k).le) (mem_range.mpr inside)

theorem entropy_nonneg (n : Nat) (x : Nat → ℝ) : 0 ≤ entropy n x := by
  apply sum_nonneg
  intro j member
  have inside := mem_range.mp member
  exact negMulLog_nonneg (softmax_pos (Nat.zero_lt_of_lt inside) x j).le (softmax_le_one inside x)

theorem entropy_le_log (positive : 0 < n) (x : Nat → ℝ) : entropy n x ≤ log n := by
  rw [← sum_bound positive x]
  exact sum_le_sum fun j _ => (negMulLog_le (softmax_pos positive x j) positive).1

/-- Two different logits cost entropy. -/
theorem entropy_lt_log {i j : Nat} (hi : i < n) (hj : j < n) (different : x i ≠ x j) :
    entropy n x < log n := by
  have positive : 0 < n := Nat.zero_lt_of_lt hi
  have apart : softmax n x i ≠ softmax n x j := by
    intro same
    have logs := congrArg log same
    rw [log_softmax positive, log_softmax positive] at logs
    exact different (by linarith)
  have uneven : ∃ k < n, softmax n x k ≠ (n : ℝ)⁻¹ := by
    by_contra even
    push Not at even
    exact apart ((even i hi).trans (even j hj).symm)
  obtain ⟨k, hk, uneven⟩ := uneven
  rw [← sum_bound positive x]
  exact sum_lt_sum (fun j _ => (negMulLog_le (softmax_pos positive x j) positive).1)
    ⟨k, mem_range.mpr hk, (negMulLog_le (softmax_pos positive x k) positive).2 uneven⟩

end DreamAifd.Softmax
