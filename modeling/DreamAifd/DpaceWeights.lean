import DreamAifd.Losses

/-! Block drafting with weights from the draft's own confidence: a slot counts for as much as the slots
from it on are expected to be reached. Two kinds of loss terms are weighted, and each hands its own
losses over to have the confidences recovered from them. -/
namespace DreamAifd.DpaceWeights

open Finset Gather Losses Real Softmax

noncomputable def confidence : LossValue → Option ℝ
  | some (x : ℝ) => some (exp (-x))
  | some ⊤ => some 0
  | none => none

section Code

variable (blockSize : Nat) (lossMask : Nat → Bool) (dpaceAlpha : ℝ) (elementwiseLoss : Nat → LossValue)

def flip {β : Type} (row : Nat → β) (k : Nat) : β := row (blockSize - 1 - k)

noncomputable def cumprod (row : Nat → Option ℝ) (k : Nat) : Option ℝ := ((List.range (k + 1)).mapM row).map List.prod

noncomputable def cumsum (row : Nat → Option ℝ) (k : Nat) : Option ℝ := ((List.range (k + 1)).mapM row).map List.sum

/-- Smoothed confidence of slot `k` of block `b`; an untrainable slot is passed over, whatever its loss. -/
noncomputable def smooth (b k : Nat) : Option ℝ :=
  let t := b * blockSize + k
  if lossMask t then (confidence (elementwiseLoss t)).map fun q => (1 - dpaceAlpha) * q + dpaceAlpha else some 1

noncomputable def weight (b k : Nat) : Option ℝ :=
  let mask := fun k => maskF (lossMask (b * blockSize + k))
  let reached := fun k => (cumprod (smooth blockSize lossMask dpaceAlpha elementwiseLoss b) k).map (· * mask k)
  (flip blockSize (cumsum (flip blockSize reached)) k).map (· * mask k)

noncomputable def dpaceLossDecay (seqLen : Nat) : Option (Nat → Option ℝ) :=
  if seqLen % blockSize ≠ 0 then none
  else some fun t => weight blockSize lossMask dpaceAlpha elementwiseLoss (t / blockSize) (t % blockSize)

end Code

/-- What the weighted losses of a slot depend on. -/
structure Slot where
  trainable : Bool
  /-- The draft's probability of the target token. -/
  targetProb : ℝ
  nonneg : 0 ≤ targetProb
  atMost : targetProb ≤ 1
  acceptRate : ℝ
  confidenceLogit : ℝ

noncomputable def Slot.ofLogits {vocab : Nat} (positive : 0 < vocab) (trainable : Bool) (logits targets : Nat → ℝ)
    (confidenceLogit : ℝ) : Slot where
  trainable := trainable
  targetProb := softmax vocab logits (argmax vocab targets)
  nonneg := (softmax_pos positive _ _).le
  atMost := softmax_le_one (argmax_lt positive targets) logits
  acceptRate := overlap vocab logits targets
  confidenceLogit := confidenceLogit

open Classical in
noncomputable def crossEntropy (targetProb : ℝ) : LossValue :=
  if targetProb = 0 then some ⊤ else finite (-log targetProb)

theorem crossEntropy_ofLogits {vocab : Nat} (positive : 0 < vocab) (trainable : Bool) (logits targets : Nat → ℝ)
    (confidenceLogit : ℝ) :
    crossEntropy (Slot.ofLogits positive trainable logits targets confidenceLogit).targetProb =
      finite (ceLoss vocab logits targets) := by
  rw [crossEntropy, Slot.ofLogits, if_neg (softmax_pos positive _ _).ne', ceLoss_eq positive]

noncomputable def binaryCrossEntropyWithLogits (logit target : ℝ) : ℝ :=
  max logit 0 - logit * target + log (1 + exp (-|logit|))

/-- The loss terms that are weighted. -/
inductive Term where
  | token | confidence
  deriving DecidableEq

inductive Speculator where
  | dflash
  | dspark (confidenceHead : Bool)

def Speculator.terms : Speculator → List Term
  | .dflash => [.token]
  | .dspark confidenceHead => if confidenceHead then [.token, .confidence] else [.token]

section Terms

variable (seqLen blockSize : Nat) (dpaceAlpha : ℝ) (slots : Nat → Slot)

def lossMask (t : Nat) : Bool := (slots t).trainable

noncomputable def decayFn : DecayFn := fun elementwiseLoss =>
  dpaceLossDecay blockSize (lossMask slots) dpaceAlpha elementwiseLoss seqLen

noncomputable def Term.elementwiseLoss : Term → Nat → LossValue
  | .token => fun t => crossEntropy (slots t).targetProb
  | .confidence => fun t => finite (binaryCrossEntropyWithLogits (slots t).confidenceLogit (slots t).acceptRate)

noncomputable def Term.value : Term → Option LossValue
  | .token => lossFunction seqLen (Term.token.elementwiseLoss slots) (lossMask slots)
      (some (decayFn seqLen blockSize dpaceAlpha slots))
  | .confidence => maskedDecayedMean seqLen (Term.confidence.elementwiseLoss slots) (lossMask slots)
      (some (decayFn seqLen blockSize dpaceAlpha slots))

noncomputable def Term.weights : Term → Option (Nat → Option ℝ)
  | .token => decayFn seqLen blockSize dpaceAlpha slots
      (maskedLoss (Term.token.elementwiseLoss slots) (lossMask slots))
  | .confidence => decayFn seqLen blockSize dpaceAlpha slots (Term.confidence.elementwiseLoss slots)

def Term.eps : Term → ℚ
  | .token => 1 / 100000
  | .confidence => 1 / 100000000

theorem Term.value_eq (term : Term) : term.value seqLen blockSize dpaceAlpha slots =
    (term.weights seqLen blockSize dpaceAlpha slots).map fun weights =>
      (sumLosses seqLen fun t => (weights t).bind
        (maskedLoss (term.elementwiseLoss slots) (lossMask slots) t).scale).scale
        (∑ t ∈ range seqLen, maskF (lossMask slots t) + (term.eps : ℝ))⁻¹ := by
  cases term with
  | token =>
    simp only [Term.value, lossFunction, decayedMean, Term.weights, Term.eps]
    cases decayFn seqLen blockSize dpaceAlpha slots _ <;> simp
  | confidence =>
    simp only [Term.value, maskedDecayedMean, decayedMean, Term.weights, Term.eps]
    cases decayFn seqLen blockSize dpaceAlpha slots _ <;> simp

end Terms

section Pace

variable (n : Nat) (dpaceAlpha : ℝ) (trainable : Nat → Bool) (q : Nat → ℝ)

/-- The chance, smoothed, that a block of `n` slots is accepted up to slot `j`. -/
noncomputable def reach (j : Nat) : ℝ := ∏ i ∈ range (j + 1) with trainable i, ((1 - dpaceAlpha) * q i + dpaceAlpha)

noncomputable def paceWeight (k : Nat) : ℝ := ∑ j ∈ Ico k n with trainable j, reach dpaceAlpha trainable q j

variable {n dpaceAlpha trainable q}

theorem paceWeight_step {k : Nat} (inside : k < n) : paceWeight n dpaceAlpha trainable q k =
    (if trainable k then reach dpaceAlpha trainable q k else 0) + paceWeight n dpaceAlpha trainable q (k + 1) := by
  simp only [paceWeight, sum_filter]
  exact sum_eq_sum_Ico_succ_bot inside _

/-- Only the block's own slots count, and of these the trainable ones. -/
theorem paceWeight_congr {trainable' : Nat → Bool} {q' : Nat → ℝ} (masks : ∀ i < n, trainable i = trainable' i)
    (same : ∀ i < n, trainable i → q i = q' i) (k : Nat) :
    paceWeight n dpaceAlpha trainable q k = paceWeight n dpaceAlpha trainable' q' k := by
  simp only [paceWeight, sum_filter]
  apply sum_congr rfl
  intro j member
  have last := (mem_Ico.mp member).2
  have reached : reach dpaceAlpha trainable q j = reach dpaceAlpha trainable' q' j := by
    simp only [reach, prod_filter]
    apply prod_congr rfl
    intro i upTo
    have within : i < n := (Nat.lt_succ_iff.mp (mem_range.mp upTo)).trans_lt last
    rw [← masks i within]
    split
    next trained => rw [same i within trained]
    next => rfl
  rw [masks j last, reached]

/-- Read from the end, the weights of the trainable slots tell those of all slots. -/
theorem paceWeight_eq_of_trainable {c : Nat → ℝ} (same : ∀ k < n, trainable k →
    paceWeight n dpaceAlpha trainable c k = paceWeight n dpaceAlpha trainable q k) {k : Nat} (upTo : k ≤ n) :
    paceWeight n dpaceAlpha trainable c k = paceWeight n dpaceAlpha trainable q k := by
  induction upTo using Nat.decreasingInduction with
  | self => simp [paceWeight]
  | of_succ k inside ih =>
    by_cases trained : trainable k
    · exact same k inside trained
    · rw [paceWeight_step inside, paceWeight_step inside, if_neg trained, if_neg trained, ih]

theorem reach_eq_of_paceWeight {c : Nat → ℝ} (same : ∀ k < n, trainable k →
    paceWeight n dpaceAlpha trainable c k = paceWeight n dpaceAlpha trainable q k) {k : Nat} (inside : k < n)
    (trained : trainable k) : reach dpaceAlpha trainable c k = reach dpaceAlpha trainable q k := by
  have here := same k inside trained
  have after := paceWeight_eq_of_trainable same (Nat.succ_le_of_lt inside)
  rw [paceWeight_step inside, paceWeight_step inside, if_pos trained, if_pos trained, after] at here
  exact add_right_cancel here

section Bounds

variable (positive : 0 < dpaceAlpha) (atMost : dpaceAlpha ≤ 1) (nonneg : ∀ i, 0 ≤ q i)

include positive atMost nonneg

theorem smooth_pos (i : Nat) : 0 < (1 - dpaceAlpha) * q i + dpaceAlpha :=
  add_pos_of_nonneg_of_pos (mul_nonneg (sub_nonneg.mpr atMost) (nonneg i)) positive

theorem reach_pos (j : Nat) : 0 < reach dpaceAlpha trainable q j :=
  prod_pos fun i _ => smooth_pos positive atMost nonneg i

theorem paceWeight_antitone {k l : Nat} (later : k ≤ l) :
    paceWeight n dpaceAlpha trainable q l ≤ paceWeight n dpaceAlpha trainable q k :=
  sum_le_sum_of_subset_of_nonneg (filter_subset_filter _ (Ico_subset_Ico later le_rfl))
    fun j _ _ => (reach_pos positive atMost nonneg j).le

theorem paceWeight_le_count (probable : ∀ i, q i ≤ 1) (k : Nat) :
    paceWeight n dpaceAlpha trainable q k ≤ ((range n).filter (trainable ·)).card := by
  have one (j : Nat) : reach dpaceAlpha trainable q j ≤ 1 := by
    apply prod_le_one fun i _ => (smooth_pos positive atMost nonneg i).le
    intro i _
    have shrunk := mul_le_of_le_one_right (sub_nonneg.mpr atMost) (probable i)
    linarith
  calc paceWeight n dpaceAlpha trainable q k
      ≤ ((Ico k n).filter (trainable ·)).card • (1 : ℝ) := sum_le_card_nsmul _ _ _ fun j _ => one j
    _ = ((Ico k n).filter (trainable ·)).card := nsmul_one _
    _ ≤ ((range n).filter (trainable ·)).card := by
      rw [range_eq_Ico]
      exact Nat.cast_le.mpr (card_le_card (filter_subset_filter _ (Ico_subset_Ico (Nat.zero_le k) le_rfl)))

/-- Where the confidences before a slot agree, its own is told by the chance to reach it. -/
theorem confidence_eq_of_reach {c : Nat → ℝ} (partly : dpaceAlpha ≠ 1) {k : Nat} (trained : trainable k)
    (earlier : ∀ i < k, trainable i → c i = q i)
    (reached : reach dpaceAlpha trainable c k = reach dpaceAlpha trainable q k) : c k = q k := by
  simp only [reach, prod_filter, prod_range_succ, if_pos trained] at reached
  have before : ∏ i ∈ range k, (if trainable i then (1 - dpaceAlpha) * c i + dpaceAlpha else 1) =
      ∏ i ∈ range k, (if trainable i then (1 - dpaceAlpha) * q i + dpaceAlpha else 1) := by
    apply prod_congr rfl
    intro i member
    split
    next trainedToo => rw [earlier i (mem_range.mp member) trainedToo]
    next => rfl
  have nonzero : ∏ i ∈ range k, (if trainable i then (1 - dpaceAlpha) * q i + dpaceAlpha else 1) ≠ 0 := by
    rw [← prod_filter]
    exact (prod_pos fun i _ => smooth_pos positive atMost nonneg i).ne'
  rw [before] at reached
  have factor := add_right_cancel (mul_left_cancel₀ nonzero reached)
  exact mul_left_cancel₀ (sub_ne_zero.mpr partly.symm) factor

/-- The weights of a block tell the confidences of its trainable slots, unless nothing is left of them. -/
theorem paceWeight_eq_iff {c : Nat → ℝ} :
    (∀ k < n, trainable k → paceWeight n dpaceAlpha trainable c k = paceWeight n dpaceAlpha trainable q k) ↔
      dpaceAlpha = 1 ∨ ∀ k < n, trainable k → c k = q k := by
  constructor
  · intro same
    rw [or_iff_not_imp_left]
    intro partly k
    induction k using Nat.strong_induction_on with
    | _ k earlier =>
      intro inside trained
      exact confidence_eq_of_reach positive atMost nonneg partly trained
        (fun i less => earlier i less (less.trans inside)) (reach_eq_of_paceWeight same inside trained)
  · rintro (whole | equal) k inside trained
    · simp only [paceWeight, reach, whole, sub_self, zero_mul]
    · exact paceWeight_congr (fun _ _ => rfl) equal k

end Bounds

end Pace

section Refines

variable {blockSize b : Nat} {lossMask : Nat → Bool} {dpaceAlpha : ℝ} {elementwiseLoss : Nat → LossValue} {q : Nat → ℝ}

theorem cumprod_some {row : Nat → Option ℝ} {x : Nat → ℝ} {k : Nat} (values : ∀ i ≤ k, row i = some (x i)) :
    cumprod row k = some (∏ i ∈ range (k + 1), x i) := by
  rw [cumprod, mapM_some fun i member => values i (Nat.lt_succ_iff.mp (List.mem_range.mp member))]
  rfl

theorem cumsum_some {row : Nat → Option ℝ} {x : Nat → ℝ} {k : Nat} (values : ∀ i ≤ k, row i = some (x i)) :
    cumsum row k = some (∑ i ∈ range (k + 1), x i) := by
  rw [cumsum, mapM_some fun i member => values i (Nat.lt_succ_iff.mp (List.mem_range.mp member))]
  rfl

/-- Flipped, summed up and flipped back, a row holds the sums from each place on. -/
theorem flip_cumsum_flip {row : Nat → Option ℝ} {x : Nat → ℝ} (values : ∀ i < blockSize, row i = some (x i))
    {k : Nat} (inside : k < blockSize) :
    flip blockSize (cumsum (flip blockSize row)) k = some (∑ j ∈ Ico k blockSize, x j) := by
  have summed : cumsum (flip blockSize row) (blockSize - 1 - k) =
      some (∑ i ∈ range (blockSize - 1 - k + 1), x (blockSize - 1 - i)) :=
    cumsum_some fun i _ => values _ (by omega)
  have first : blockSize - 1 + 1 - (blockSize - 1 - k + 1) = k := by omega
  have last : blockSize - 1 + 1 - 0 = blockSize := by omega
  rw [flip, summed, range_eq_Ico, sum_Ico_reflect x 0 (by omega), first, last]

/-- Only the confidences of the block's trainable slots are read. -/
theorem weight_eq (confidences : ∀ k < blockSize, lossMask (b * blockSize + k) →
      confidence (elementwiseLoss (b * blockSize + k)) = some (q k)) {k : Nat} (inside : k < blockSize) :
    weight blockSize lossMask dpaceAlpha elementwiseLoss b k =
      some (if lossMask (b * blockSize + k) then
        paceWeight blockSize dpaceAlpha (fun i => lossMask (b * blockSize + i)) q k else 0) := by
  have smoothed : ∀ i < blockSize, smooth blockSize lossMask dpaceAlpha elementwiseLoss b i =
      some (if lossMask (b * blockSize + i) then (1 - dpaceAlpha) * q i + dpaceAlpha else 1) := by
    intro i within
    simp only [smooth]
    split
    next trained => rw [confidences i within trained, Option.map_some]
    next => rfl
  have reached : ∀ j < blockSize, (cumprod (smooth blockSize lossMask dpaceAlpha elementwiseLoss b) j).map
      (· * maskF (lossMask (b * blockSize + j))) =
        some (if lossMask (b * blockSize + j) then
          reach dpaceAlpha (fun i => lossMask (b * blockSize + i)) q j else 0) := by
    intro j within
    rw [cumprod_some fun i upTo => smoothed i (upTo.trans_lt within), ← prod_filter, Option.map_some, maskF,
      mul_ite, mul_one, mul_zero, reach]
  simp only [weight]
  rw [flip_cumsum_flip reached inside, ← sum_filter, Option.map_some, maskF, mul_ite, mul_one, mul_zero, paceWeight]

end Refines

noncomputable def Term.recovered (slot : Slot) : Term → ℝ
  | .token => slot.targetProb
  | .confidence => exp (-binaryCrossEntropyWithLogits slot.confidenceLogit slot.acceptRate)

theorem confidence_crossEntropy (slot : Slot) :
    confidence ((crossEntropy slot.targetProb).scale 1) = some slot.targetProb := by
  rw [crossEntropy]
  split
  next impossible =>
    rw [infinite_scale, if_neg one_ne_zero, impossible]
    rfl
  next possible =>
    have positive := lt_of_le_of_ne slot.nonneg (Ne.symm possible)
    have recovered : exp (-(-log slot.targetProb)) = slot.targetProb := by rw [neg_neg, exp_log positive]
    rw [finite_scale, mul_one]
    exact congrArg some recovered

/-- The slots of a batch, block by block. -/
theorem forall_slot_iff {numBlocks blockSize : Nat} {P : Nat → Prop} :
    (∀ t < numBlocks * blockSize, P t) ↔ ∀ b < numBlocks, ∀ k < blockSize, P (b * blockSize + k) := by
  constructor
  · intro all b block k inside
    apply all
    have room := Nat.mul_le_mul_right blockSize (Nat.succ_le_of_lt block)
    rw [Nat.succ_mul] at room
    omega
  · intro all t inside
    have size : 0 < blockSize := Nat.pos_of_mul_pos_left (Nat.zero_lt_of_lt inside)
    have here := all (t / blockSize) (Nat.div_lt_of_lt_mul (by rwa [Nat.mul_comm])) (t % blockSize) (Nat.mod_lt t size)
    rwa [Nat.div_add_mod'] at here

section Weights

variable (numBlocks blockSize : Nat) (dpaceAlpha : ℝ) (slots : Nat → Slot)

/-- The weights with the confidences given by `q`. -/
noncomputable def slotWeight (q : Slot → ℝ) (b k : Nat) : ℝ :=
  paceWeight blockSize dpaceAlpha (fun i => (slots (b * blockSize + i)).trainable)
    (fun i => q (slots (b * blockSize + i))) k

theorem Term.weights_eq (term : Term) :
    ∃ weights, term.weights (numBlocks * blockSize) blockSize dpaceAlpha slots = some weights ∧
      ∀ b, ∀ k < blockSize, weights (b * blockSize + k) =
        some (if (slots (b * blockSize + k)).trainable then
          slotWeight blockSize dpaceAlpha slots (fun slot => term.recovered slot) b k else 0) := by
  have divides : ¬ numBlocks * blockSize % blockSize ≠ 0 := not_not.mpr (Nat.mul_mod_left _ _)
  have place {b k : Nat} (inside : k < blockSize) :
      (b * blockSize + k) / blockSize = b ∧ (b * blockSize + k) % blockSize = k := by
    rw [Nat.mul_comm, Nat.mul_add_div (by omega), Nat.div_eq_of_lt inside, Nat.mul_add_mod, Nat.mod_eq_of_lt inside]
    exact ⟨rfl, rfl⟩
  cases term with
  | token =>
    refine ⟨_, by rw [Term.weights, decayFn, dpaceLossDecay, if_neg divides], fun b k inside => ?_⟩
    rw [(place inside).1, (place inside).2]
    refine weight_eq (fun i _ trained => ?_) inside
    simp only [maskedLoss, Term.elementwiseLoss, trained, maskF, if_true]
    exact confidence_crossEntropy _
  | confidence =>
    refine ⟨_, by rw [Term.weights, decayFn, dpaceLossDecay, if_neg divides], fun b k inside => ?_⟩
    rw [(place inside).1, (place inside).2]
    exact weight_eq (fun i _ _ => rfl) inside

structure Paced (weights : Nat → Option ℝ) : Prop where
  exact : ∀ b < numBlocks, ∀ k < blockSize, (slots (b * blockSize + k)).trainable →
    weights (b * blockSize + k) = some (slotWeight blockSize dpaceAlpha slots Slot.targetProb b k)
  untrainable : ∀ b < numBlocks, ∀ k < blockSize, ¬(slots (b * blockSize + k)).trainable →
    weights (b * blockSize + k) = some 0
  antitone : ∀ b < numBlocks, ∀ k l, k ≤ l → l < blockSize → (slots (b * blockSize + k)).trainable →
    (slots (b * blockSize + l)).trainable → ∀ v w, weights (b * blockSize + k) = some v →
      weights (b * blockSize + l) = some w → w ≤ v
  count : ∀ b < numBlocks, ∀ k < blockSize, ∀ v, weights (b * blockSize + k) = some v →
    v ≤ ((range blockSize).filter fun i => (slots (b * blockSize + i)).trainable).card

/-- Other slots elsewhere leave the weights of a block as they are. -/
def Term.Independent (term : Term) (weights : Nat → Option ℝ) : Prop :=
  ∀ b < numBlocks, ∀ others : Nat → Slot,
    (∀ k < blockSize, others (b * blockSize + k) = slots (b * blockSize + k)) →
      ∀ othersWeights, term.weights (numBlocks * blockSize) blockSize dpaceAlpha others = some othersWeights →
        ∀ k < blockSize, othersWeights (b * blockSize + k) = weights (b * blockSize + k)

def Term.WellPaced (term : Term) : Prop :=
  ∃ weights, term.weights (numBlocks * blockSize) blockSize dpaceAlpha slots = some weights ∧
    Paced numBlocks blockSize dpaceAlpha slots weights ∧
    term.Independent numBlocks blockSize dpaceAlpha slots weights

variable {numBlocks blockSize dpaceAlpha slots}

theorem Term.independent (term : Term) {weights : Nat → Option ℝ}
    (returned : term.weights (numBlocks * blockSize) blockSize dpaceAlpha slots = some weights) :
    term.Independent numBlocks blockSize dpaceAlpha slots weights := by
  intro b _ others same othersWeights othersReturned k inside
  obtain ⟨found, here, values⟩ := term.weights_eq numBlocks blockSize dpaceAlpha slots
  obtain ⟨othersFound, there, othersValues⟩ := term.weights_eq numBlocks blockSize dpaceAlpha others
  obtain rfl := Option.some.inj (here.symm.trans returned)
  obtain rfl := Option.some.inj (there.symm.trans othersReturned)
  have weight : slotWeight blockSize dpaceAlpha others (fun slot => term.recovered slot) b k =
      slotWeight blockSize dpaceAlpha slots (fun slot => term.recovered slot) b k :=
    paceWeight_congr (fun i within => by rw [same i within]) (fun i within _ => by rw [same i within]) k
  rw [values b k inside, othersValues b k inside, same k inside, weight]

variable (positive : 0 < dpaceAlpha) (atMost : dpaceAlpha ≤ 1)

include positive atMost

/-- Weights that are exact do not increase in a block and stay below the number of its trainable slots. -/
theorem Paced.of_exact {weights : Nat → Option ℝ}
    (meant : ∀ b < numBlocks, ∀ k < blockSize, (slots (b * blockSize + k)).trainable →
      weights (b * blockSize + k) = some (slotWeight blockSize dpaceAlpha slots Slot.targetProb b k))
    (untrained : ∀ b < numBlocks, ∀ k < blockSize, ¬(slots (b * blockSize + k)).trainable →
      weights (b * blockSize + k) = some 0) : Paced numBlocks blockSize dpaceAlpha slots weights where
  exact := meant
  untrainable := untrained
  antitone := by
    intro b inside k l order within first second v w atFirst atSecond
    rw [meant b inside k (order.trans_lt within) first] at atFirst
    rw [meant b inside l within second] at atSecond
    rw [← Option.some.inj atFirst, ← Option.some.inj atSecond]
    exact paceWeight_antitone positive atMost (fun i => (slots (b * blockSize + i)).nonneg) order
  count := by
    intro b inside k within v atSlot
    by_cases trained : (slots (b * blockSize + k)).trainable
    · rw [meant b inside k within trained] at atSlot
      rw [← Option.some.inj atSlot]
      exact paceWeight_le_count positive atMost (fun i => (slots (b * blockSize + i)).nonneg)
        (fun i => (slots (b * blockSize + i)).atMost) k
    · rw [untrained b inside k within trained] at atSlot
      rw [← Option.some.inj atSlot]
      exact Nat.cast_nonneg _

/-- A term is weighted as meant exactly if its losses stand for the confidences, or these do not matter. -/
theorem Term.wellPaced_iff (term : Term) : term.WellPaced numBlocks blockSize dpaceAlpha slots ↔
    dpaceAlpha = 1 ∨ ∀ t < numBlocks * blockSize, (slots t).trainable →
      term.recovered (slots t) = (slots t).targetProb := by
  obtain ⟨weights, returned, values⟩ := term.weights_eq numBlocks blockSize dpaceAlpha slots
  have block (b : Nat) : (∀ k < blockSize, (slots (b * blockSize + k)).trainable →
      slotWeight blockSize dpaceAlpha slots (fun slot => term.recovered slot) b k =
        slotWeight blockSize dpaceAlpha slots Slot.targetProb b k) ↔
          dpaceAlpha = 1 ∨ ∀ k < blockSize, (slots (b * blockSize + k)).trainable →
            term.recovered (slots (b * blockSize + k)) = (slots (b * blockSize + k)).targetProb :=
    paceWeight_eq_iff positive atMost fun i => (slots (b * blockSize + i)).nonneg
  rw [forall_slot_iff]
  constructor
  · rintro ⟨found, here, paced, -⟩
    obtain rfl := Option.some.inj (returned.symm.trans here)
    rw [or_iff_not_imp_left]
    intro partly b inside
    refine ((block b).mp fun k within trained => ?_).resolve_left partly
    have meant := paced.exact b inside k within trained
    rw [values b k within, if_pos trained] at meant
    exact Option.some.inj meant
  · intro condition
    refine ⟨weights, returned, .of_exact positive atMost ?_ ?_, term.independent returned⟩
    · intro b inside k within trained
      rw [values b k within, if_pos trained]
      exact congrArg some ((block b).mpr (condition.imp id fun all => all b inside) k within trained)
    · intro b _ k within untrained
      rw [values b k within, if_neg untrained]

end Weights

/-- Two tokens, the first three times as probable; the draft agrees with the target. -/
noncomputable def agreedSlot : Slot :=
  .ofLogits Nat.two_pos true (fun v => if v = 0 then log 3 else 0) (fun v => if v = 0 then log 3 else 0) 0

theorem agreedSlot_targetProb : agreedSlot.targetProb = 3 / 4 := by
  have first : argmax 2 (fun v => if v = 0 then log 3 else 0) = 0 := by
    have less : ¬ log 3 < 0 := not_lt.mpr (log_nonneg (by norm_num))
    simp [argmax, less]
  have here : agreedSlot.targetProb = softmax 2 (fun v => if v = 0 then log 3 else 0)
      (argmax 2 fun v => if v = 0 then log 3 else 0) := rfl
  rw [here, first, softmax, partition, sum_range_succ, sum_range_one]
  norm_num [exp_log]

/-- The token loss is always weighted as meant; the confidence loss is where the exponential of its own
loss is the draft's probability of the target token. -/
theorem terms_wellPaced_iff (speculator : Speculator) (numBlocks blockSize : Nat) (dpaceAlpha : ℝ)
    (positive : 0 < dpaceAlpha) (atMost : dpaceAlpha ≤ 1) (slots : Nat → Slot) :
    (∀ term ∈ speculator.terms, term.WellPaced numBlocks blockSize dpaceAlpha slots) ↔
      dpaceAlpha = 1 ∨ (Term.confidence ∈ speculator.terms → ∀ t < numBlocks * blockSize, (slots t).trainable →
        exp (-binaryCrossEntropyWithLogits (slots t).confidenceLogit (slots t).acceptRate) =
          (slots t).targetProb) := by
  constructor
  · intro all
    rw [or_iff_not_imp_left]
    intro partly weighted
    exact ((Term.wellPaced_iff positive atMost .confidence).mp (all _ weighted)).resolve_left partly
  · intro condition term member
    rw [Term.wellPaced_iff positive atMost]
    refine condition.imp id fun recovered => ?_
    cases term with
    | token => exact fun _ _ _ => rfl
    | confidence => exact recovered member

theorem terms_wellPaced_dflash : Term.token.WellPaced 3 2 (1 / 2) fun _ => agreedSlot :=
  (terms_wellPaced_iff .dflash 3 2 (1 / 2) (by norm_num) (by norm_num) _).mpr (.inr (by simp [Speculator.terms]))
    .token (by simp [Speculator.terms])

/-- One slot, accepted for sure: its confidence logit 0 costs `log 2`, as if the target token had
probability 1/2. -/
theorem terms_not_wellPaced :
    ¬ ∀ term ∈ (Speculator.dspark true).terms, term.WellPaced 1 1 (1 / 2) fun _ => agreedSlot := by
  intro all
  have weighted : Term.confidence ∈ (Speculator.dspark true).terms := by simp [Speculator.terms]
  have paced := (Term.wellPaced_iff (by norm_num) (by norm_num) .confidence).mp (all _ weighted)
  have recovered := (paced.resolve_left (by norm_num)) 0 (by decide) rfl
  have cost : binaryCrossEntropyWithLogits agreedSlot.confidenceLogit agreedSlot.acceptRate = log 2 := by
    simp [binaryCrossEntropyWithLogits, agreedSlot, Slot.ofLogits]
    norm_num
  rw [agreedSlot_targetProb, Term.recovered, cost, exp_neg, exp_log (by norm_num)] at recovered
  norm_num at recovered

end DreamAifd.DpaceWeights
