import DreamAifd.Averages
import DreamAifd.Gather
import DreamAifd.Softmax

/-! Losses of a batch. The losses of its positions are multiplied by the mask, not selected by it, so
what is not a number at an untrained position is none in the sum either. -/
namespace DreamAifd.Losses

open Finset Gather Real Softmax

/-- A value of a tensor that may be infinite; `none` is NaN. -/
abbrev LossValue := Option (WithTop ℝ)

def finite (x : ℝ) : LossValue := some x

open Classical in
/-- Times a factor that is not negative. Infinity times zero is not a number. -/
noncomputable def LossValue.scale : LossValue → ℝ → LossValue
  | some (x : ℝ), factor => finite (x * factor)
  | some ⊤, factor => if factor = 0 then none else some ⊤
  | none, _ => none

@[simp] theorem finite_scale (x factor : ℝ) : LossValue.scale (finite x) factor = finite (x * factor) := rfl

open Classical in
@[simp] theorem infinite_scale (factor : ℝ) :
    LossValue.scale (some ⊤) factor = if factor = 0 then none else some ⊤ := rfl

/-- A sum with something that is not a number is none. -/
noncomputable def sumLosses (seqLen : Nat) (losses : Nat → LossValue) : LossValue :=
  ((List.range seqLen).mapM losses).map List.sum

theorem sumLosses_finite {seqLen : Nat} {losses : Nat → LossValue} {x : Nat → ℝ}
    (values : ∀ t < seqLen, losses t = finite (x t)) :
    sumLosses seqLen losses = finite (∑ t ∈ range seqLen, x t) := by
  have each : ∀ t ∈ List.range seqLen, losses t = some ((x t : ℝ) : WithTop ℝ) :=
    fun t member => values t (List.mem_range.mp member)
  rw [sumLosses, mapM_some each, Option.map_some, finite, ← Averages.sum_map_range, ← Averages.sum_coe,
    List.map_map]
  rfl

noncomputable def maskF (trainable : Bool) : ℝ := if trainable then 1 else 0

/-- What multiplies the losses, worked out from them. The outer `none` is an exception. -/
abbrev DecayFn := (Nat → LossValue) → Option (Nat → Option ℝ)

section Means

variable (seqLen : Nat) (elementwiseLoss : Nat → LossValue) (lossMask : Nat → Bool) (decayFn : Option DecayFn)

noncomputable def maskedLoss (t : Nat) : LossValue := (elementwiseLoss t).scale (maskF (lossMask t))

/-- The mean of masked losses, with the decay that belongs to the losses `given`. -/
noncomputable def decayedMean (eps : ℝ) (given : Nat → LossValue) : Option LossValue := do
  let weighted := maskedLoss elementwiseLoss lossMask
  let weighted ← match decayFn with
    | none => some weighted
    | some decayFn => (decayFn given).map fun decayMult t => (decayMult t).bind (weighted t).scale
  let denominator := ∑ t ∈ range seqLen, maskF (lossMask t) + eps
  some ((sumLosses seqLen weighted).scale denominator⁻¹)

/-- The decay sees the masked losses. -/
noncomputable def lossFunction : Option LossValue :=
  decayedMean seqLen elementwiseLoss lossMask decayFn (1 / 100000) (maskedLoss elementwiseLoss lossMask)

/-- The decay sees the losses as they are. -/
noncomputable def maskedDecayedMean : Option LossValue :=
  decayedMean seqLen elementwiseLoss lossMask decayFn (1 / 100000000) elementwiseLoss

end Means

/-- A decay that is real for real losses. -/
def DecayFn.Real (seqLen : Nat) (decayFn : DecayFn) : Prop :=
  ∀ x : Nat → ℝ, ∀ losses : Nat → LossValue, (∀ t < seqLen, losses t = finite (x t)) →
    ∃ weight : Nat → ℝ, ∃ decayMult, decayFn losses = some decayMult ∧ ∀ t < seqLen, decayMult t = some (weight t)

/-- Real losses give a real one. -/
theorem lossFunction_finite {seqLen : Nat} {elementwiseLoss : Nat → LossValue} {lossMask : Nat → Bool}
    {decayFn : Option DecayFn} {x : Nat → ℝ} (losses : ∀ t < seqLen, elementwiseLoss t = finite (x t))
    (decays : ∀ f ∈ decayFn, f.Real seqLen) :
    ∃ loss : ℝ, lossFunction seqLen elementwiseLoss lossMask decayFn = some (finite loss) := by
  have masked : ∀ t < seqLen, maskedLoss elementwiseLoss lossMask t = finite (x t * maskF (lossMask t)) := by
    intro t inside
    rw [maskedLoss, losses t inside, finite_scale]
  let total := ∑ t ∈ range seqLen, maskF (lossMask t) + 1 / 100000
  cases decayFn with
  | none =>
    refine ⟨(∑ t ∈ range seqLen, x t * maskF (lossMask t)) * total⁻¹, ?_⟩
    simp only [lossFunction, decayedMean, Option.bind_eq_bind, Option.bind_some]
    rw [sumLosses_finite masked, finite_scale]
  | some f =>
    obtain ⟨weight, decayMult, returned, real⟩ := decays f rfl _ _ masked
    have weighted : ∀ t < seqLen, (decayMult t).bind (maskedLoss elementwiseLoss lossMask t).scale =
        finite (x t * maskF (lossMask t) * weight t) := by
      intro t inside
      rw [real t inside, Option.bind_some, masked t inside, finite_scale]
    refine ⟨(∑ t ∈ range seqLen, x t * maskF (lossMask t) * weight t) * total⁻¹, ?_⟩
    simp only [lossFunction, decayedMean, returned, Option.map_some, Option.bind_eq_bind, Option.bind_some]
    rw [sumLosses_finite weighted, finite_scale]

/-- One position whose loss is not a number, masked or not, is enough. -/
theorem lossFunction_nan {seqLen : Nat} {elementwiseLoss : Nat → LossValue} (lossMask : Nat → Bool) {t : Nat}
    (inside : t < seqLen) (nan : elementwiseLoss t = none) :
    lossFunction seqLen elementwiseLoss lossMask none = some none := by
  have masked : maskedLoss elementwiseLoss lossMask t = none := by rw [maskedLoss, nan]; rfl
  have collected : (List.range seqLen).mapM (maskedLoss elementwiseLoss lossMask) = none := by
    by_contra found
    obtain ⟨values, all⟩ := Option.ne_none_iff_exists'.mp found
    have entry : none ∈ (List.range seqLen).map (maskedLoss elementwiseLoss lossMask) := by
      rw [← masked]
      exact List.mem_map_of_mem (List.mem_range.mpr inside)
    rw [map_some_of_mapM all] at entry
    simp at entry
  simp only [lossFunction, decayedMean, Option.bind_eq_bind, Option.bind_some, sumLosses, collected, Option.map_none]
  rfl

/-! Losses of a position, from its rows of `vocab` logits and targets. -/

/-- The first position of the maximum of the first `vocab` entries. -/
noncomputable def argmax : Nat → (Nat → ℝ) → Nat
  | 0, _ => 0
  | vocab + 1, row => open Classical in if row (argmax vocab row) < row vocab then vocab else argmax vocab row

theorem argmax_lt {vocab : Nat} (positive : 0 < vocab) (row : Nat → ℝ) : argmax vocab row < vocab := by
  induction vocab with
  | zero => exact absurd positive (lt_irrefl 0)
  | succ vocab ih =>
    rw [argmax]
    split
    next => exact Nat.lt_succ_self vocab
    next =>
      rcases Nat.eq_zero_or_pos vocab with rfl | more
      · exact Nat.zero_lt_one
      · exact (ih more).trans (Nat.lt_succ_self vocab)

section Position

variable (vocab : Nat) (logits targets : Nat → ℝ)

noncomputable def ceLoss : ℝ := logSumExp vocab logits - logits (argmax vocab targets)

/-- The rate of acceptance. -/
noncomputable def overlap : ℝ := ∑ v ∈ range vocab, min (softmax vocab logits v) (softmax vocab targets v)

noncomputable def tvLoss : ℝ := 1 - overlap vocab logits targets

noncomputable def negLogAcceptanceLoss : ℝ := -log (max (overlap vocab logits targets) (1 / 100000))

end Position

theorem ceLoss_eq {vocab : Nat} (positive : 0 < vocab) (logits targets : Nat → ℝ) :
    ceLoss vocab logits targets = -log (softmax vocab logits (argmax vocab targets)) := by
  rw [log_softmax positive, ceLoss, neg_sub]

end DreamAifd.Losses
