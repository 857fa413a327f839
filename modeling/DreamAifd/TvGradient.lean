import DreamAifd.Losses

/-! The derivative of softmax weights, and of the total variation distance of two rows wherever no two of
their weights meet. -/
namespace DreamAifd.TvGradient

open Finset Losses Real Softmax

variable {n : Nat}

/-- A row of `n` entries, continued by zeros. -/
def pad (x : Fin n → ℝ) (v : Nat) : ℝ := if inside : v < n then x ⟨v, inside⟩ else 0

@[simp] theorem pad_val (x : Fin n → ℝ) (v : Fin n) : pad x v = x v := dif_pos v.isLt

/-- Only the row itself counts. -/
theorem softmax_congr {x y : Nat → ℝ} (same : ∀ v < n, x v = y v) {v : Nat} (inside : v < n) :
    softmax n x v = softmax n y v := by
  have total : partition n x = partition n y := sum_congr rfl fun j member => by rw [same j (mem_range.mp member)]
  rw [softmax, softmax, total, same v inside]

theorem softmax_eq_exp (positive : 0 < n) (x : Nat → ℝ) (v : Nat) : softmax n x v = exp (x v - logSumExp n x) := by
  rw [← log_softmax positive, exp_log (softmax_pos positive x v)]

noncomputable def coordinate (v : Fin n) : (Fin n → ℝ) →L[ℝ] ℝ := ContinuousLinearMap.proj v

@[simp] theorem coordinate_apply (v : Fin n) (w : Fin n → ℝ) : coordinate v w = w v := rfl

noncomputable def form (g : Fin n → ℝ) : (Fin n → ℝ) →L[ℝ] ℝ := ∑ v, g v • coordinate v

theorem form_apply (g w : Fin n → ℝ) : form g w = ∑ v, g v * w v := by
  simp [form]

theorem hasFDerivAt_logSumExp (positive : 0 < n) (x : Fin n → ℝ) :
    HasFDerivAt (fun x : Fin n → ℝ => logSumExp n (pad x)) (form fun v => softmax n (pad x) v) x := by
  have total (x : Fin n → ℝ) : partition n (pad x) = ∑ v, exp (x v) := by
    rw [partition, sum_range]
    exact sum_congr rfl fun v _ => by rw [pad_val]
  have each (v : Fin n) : HasFDerivAt (fun x : Fin n → ℝ => exp (x v)) (exp (x v) • coordinate v) x :=
    (hasFDerivAt_apply v x).exp
  have sum : HasFDerivAt (fun x : Fin n → ℝ => partition n (pad x)) (∑ v, exp (x v) • coordinate v) x := by
    simp only [total]
    exact HasFDerivAt.fun_sum fun v _ => each v
  have nonzero : partition n (pad x) ≠ 0 := (partition_pos positive _).ne'
  refine (sum.log nonzero).congr_fderiv ?_
  rw [form, smul_sum]
  apply sum_congr rfl
  intro v _
  rw [smul_smul, softmax, pad_val, inv_mul_eq_div]

noncomputable def softmaxForm (x : Fin n → ℝ) (v : Fin n) : (Fin n → ℝ) →L[ℝ] ℝ :=
  softmax n (pad x) v • (coordinate v - form fun j => softmax n (pad x) j)

theorem softmaxForm_apply (x w : Fin n → ℝ) (v : Fin n) :
    softmaxForm x v w = softmax n (pad x) v * (w v - ∑ j : Fin n, softmax n (pad x) j * w j) := by
  simp [softmaxForm, form_apply]

/-- A weight grows with its own logit and falls with all others. -/
theorem hasFDerivAt_softmax (positive : 0 < n) (x : Fin n → ℝ) (v : Fin n) :
    HasFDerivAt (fun x : Fin n → ℝ => softmax n (pad x) v) (softmaxForm x v) x := by
  have shifted := ((hasFDerivAt_apply v x).sub (hasFDerivAt_logSumExp positive x)).exp
  simp only [softmaxForm, softmax_eq_exp positive, pad_val] at shifted ⊢
  exact shifted

/-- Away from the other value a minimum is one of its sides. -/
theorem hasFDerivAt_min_const {p : (Fin n → ℝ) → ℝ} {p' : (Fin n → ℝ) →L[ℝ] ℝ} {x : Fin n → ℝ}
    (derivative : HasFDerivAt p p' x) {q : ℝ} (apart : p x ≠ q) :
    HasFDerivAt (fun x => min (p x) q) (if p x ≤ q then p' else 0) x := by
  have continuous := derivative.continuousAt
  rcases lt_or_gt_of_ne apart with below | above
  · rw [if_pos below.le]
    apply derivative.congr_of_eventuallyEq
    filter_upwards [continuous.eventually_lt continuousAt_const below] with y less
    exact min_eq_left less.le
  · rw [if_neg (not_le.mpr above)]
    apply (hasFDerivAt_const q x).congr_of_eventuallyEq
    filter_upwards [continuousAt_const.eventually_lt continuous above] with y less
    exact min_eq_right less.le

section Gradient

variable (x : Fin n → ℝ) (targets : Nat → ℝ)

noncomputable def indicator (v : Nat) : ℝ := if softmax n (pad x) v ≤ softmax n targets v then 1 else 0

/-- The draft's weight where it is the smaller one. -/
noncomputable def lowerMass : ℝ := ∑ v ∈ range n, indicator x targets v * softmax n (pad x) v

noncomputable def tvGradient (v : Nat) : ℝ := -softmax n (pad x) v * (indicator x targets v - lowerMass x targets)

variable {x targets}

theorem hasFDerivAt_tvLoss (positive : 0 < n)
    (apart : ∀ v < n, softmax n (pad x) v ≠ softmax n targets v) :
    HasFDerivAt (fun x : Fin n → ℝ => tvLoss n (pad x) targets) (form fun v => tvGradient x targets v) x := by
  have terms (v : Fin n) := hasFDerivAt_min_const (hasFDerivAt_softmax positive x v) (apart v v.isLt)
  have derivative := (HasFDerivAt.fun_sum fun v (_ : v ∈ univ) => terms v).const_sub 1
  have loss : (fun x : Fin n → ℝ => tvLoss n (pad x) targets) =
      fun x => 1 - ∑ v : Fin n, min (softmax n (pad x) v) (softmax n targets v) := by
    funext x
    rw [tvLoss, overlap, sum_range]
  rw [loss]
  refine derivative.congr_fderiv (ContinuousLinearMap.ext fun w => ?_)
  have term (v : Fin n) : (if softmax n (pad x) v ≤ softmax n targets v then softmaxForm x v else 0) w =
      indicator x targets v * softmax n (pad x) v * w v -
        indicator x targets v * softmax n (pad x) v * ∑ j : Fin n, softmax n (pad x) j * w j := by
    rw [indicator]
    split
    next =>
      rw [softmaxForm_apply]
      ring
    next => simp
  have mass : lowerMass x targets = ∑ v : Fin n, indicator x targets v * softmax n (pad x) v := sum_range _
  have applied : (-∑ v : Fin n, if softmax n (pad x) v ≤ softmax n targets v then softmaxForm x v else 0) w =
      -∑ v : Fin n, (if softmax n (pad x) v ≤ softmax n targets v then softmaxForm x v else 0) w := by
    rw [neg_apply]
    exact congrArg Neg.neg (map_sum (ContinuousLinearMap.apply ℝ ℝ w) _ univ)
  calc (-∑ v : Fin n, if softmax n (pad x) v ≤ softmax n targets v then softmaxForm x v else 0) w
      = -∑ v : Fin n, (indicator x targets v * softmax n (pad x) v * w v -
          indicator x targets v * softmax n (pad x) v * ∑ j : Fin n, softmax n (pad x) j * w j) := by
        rw [applied]
        simp only [term]
    _ = -(∑ v : Fin n, indicator x targets v * softmax n (pad x) v * w v) +
          lowerMass x targets * ∑ v : Fin n, softmax n (pad x) v * w v := by
        rw [sum_sub_distrib, ← sum_mul, ← mass]
        ring
    _ = form (fun v : Fin n => tvGradient x targets v) w := by
        rw [form_apply, mul_sum, ← sum_neg_distrib, ← sum_add_distrib]
        apply sum_congr rfl
        intro v _
        rw [tvGradient]
        ring

end Gradient

end DreamAifd.TvGradient
