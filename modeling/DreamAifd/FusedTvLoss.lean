import DreamAifd.Blocks
import DreamAifd.OnlineSoftmax
import DreamAifd.TvGradient

/-! Losses of the rate of acceptance by fused kernels. Every program has one row, which it walks over in
blocks: once for maximum and sum of each side, once for the overlap, and once more for the gradient, from
the five scalars that are kept. -/
namespace DreamAifd.FusedTvLoss

open Blocks Losses OnlineSoftmax Real Softmax TvGradient

section Kernels

variable (nCols blockSize : Nat)

/-- A masked lane reads `-∞`, which neither the maximum nor the sum notices. -/
noncomputable def onlineStats (row : Nat → ℝ) : WithBot ℝ × ℝ :=
  (starts nCols blockSize).foldl (fun (m, d) i =>
    let x := Blocks.load (fun v => (row v : WithBot ℝ)) nCols ⊥ blockSize i
    let mNew := max m (rowMax x)
    (mNew, d * weight m mNew + total x mNew)) (⊥, 0)

/-- The second pass: the overlap, and the draft's mass where it is the smaller one. -/
noncomputable def overlapPass (p q : Nat → ℝ) : ℝ × ℝ :=
  (starts nCols blockSize).foldl (fun (overlap, sS) i =>
    (overlap + (Blocks.load (fun v => min (p v) (q v)) nCols 0 blockSize i).sum,
      sS + (Blocks.load (fun v => if p v ≤ q v then p v else 0) nCols 0 blockSize i).sum)) (0, 0)

structure Saved where
  loss : Nat → ℝ
  stats : Nat → WithBot ℝ

def statsPtr (statsRow k pid : Nat) : Nat := k * statsRow + pid

structure RowScalars where
  loss : ℝ
  mP : WithBot ℝ
  dP : ℝ
  mQ : WithBot ℝ
  dQ : ℝ
  sS : ℝ

def Saved.write (saved : Saved) (statsRow pid : Nat) (scalars : RowScalars) : Saved :=
  let stats := Function.update saved.stats (statsPtr statsRow 0 pid) scalars.mP
  let stats := Function.update stats (statsPtr statsRow 1 pid) scalars.dP
  let stats := Function.update stats (statsPtr statsRow 2 pid) scalars.mQ
  let stats := Function.update stats (statsPtr statsRow 3 pid) scalars.dQ
  let stats := Function.update stats (statsPtr statsRow 4 pid) scalars.sS
  ⟨Function.update saved.loss pid scalars.loss, stats⟩

noncomputable def rowScalars (logits targets : Nat → ℝ) : RowScalars :=
  let (mP, dP) := onlineStats nCols blockSize logits
  let (mQ, dQ) := onlineStats nCols blockSize targets
  let p := fun v => weight (logits v) mP / dP
  let q := fun v => weight (targets v) mQ / dQ
  let (overlap, sS) := overlapPass nCols blockSize p q
  ⟨1 - overlap, mP, dP, mQ, dQ, sS⟩

def rowOf (ptr : Nat → ℝ) (pid v : Nat) : ℝ := ptr (pid * nCols + v)

variable (logitsPtr targetsPtr : Nat → ℝ) (statsRow pid : Nat)

noncomputable def tvForwardKernel (saved : Saved) : Saved :=
  saved.write statsRow pid (rowScalars nCols blockSize (rowOf nCols logitsPtr pid) (rowOf nCols targetsPtr pid))

def scalar (cell : WithBot ℝ) : ℝ := cell.unbotD 0

/-- The gradient of one entry, recomputed from the scalars of its row. -/
noncomputable def gradLane (go : ℝ) (mP : WithBot ℝ) (dP : ℝ) (mQ : WithBot ℝ) (dQ sS x y : ℝ) : ℝ :=
  let p := weight x mP / dP
  let q := weight y mQ / dQ
  let ind := if p ≤ q then 1 else 0
  let grad := -go * p * (ind - sS)
  grad

open Classical in
noncomputable def tvBackwardKernel (gradOut : Nat → ℝ) (stats : Nat → WithBot ℝ) (gradIn : Nat → ℝ) : Nat → ℝ :=
  let go := gradOut pid
  let mP := stats (statsPtr statsRow 0 pid)
  let dP := scalar (stats (statsPtr statsRow 1 pid))
  let mQ := stats (statsPtr statsRow 2 pid)
  let dQ := scalar (stats (statsPtr statsRow 3 pid))
  let sS := scalar (stats (statsPtr statsRow 4 pid))
  let grad := fun v => gradLane go mP dP mQ dQ sS (rowOf nCols logitsPtr pid v) (rowOf nCols targetsPtr pid v)
  let value := if go = 0 then fun _ => 0 else grad
  (starts nCols blockSize).foldl (store (pid * nCols) nCols blockSize value) gradIn

def launch {σ : Type*} (programs : List Nat) (kernel : Nat → σ → σ) (memory : σ) : σ :=
  programs.foldl (fun memory pid => kernel pid memory) memory

end Kernels

/-! `FusedTVLoss` on `rows` rows of `vocab` entries, and what is built on it. -/

section Fused

variable (programs : List Nat) (rows vocab blockSize : Nat) (logits targets : Nat → ℝ)

noncomputable def forward (memory : Saved) : Saved :=
  launch programs (fun pid => tvForwardKernel vocab blockSize logits targets rows pid) memory

noncomputable def backward (gradOut : Nat → ℝ) (saved : Saved) (gradIn : Nat → ℝ) : Nat → ℝ :=
  launch programs (fun pid => tvBackwardKernel vocab blockSize logits targets rows pid gradOut saved.stats) gradIn

noncomputable def fusedNlaLoss (saved : Saved) (r : Nat) : ℝ := -log (max (1 - saved.loss r) 1e-5)

end Fused

section Stats

variable {nCols blockSize : Nat}

theorem onlineStats_eq (block : 0 < blockSize) (row : Nat → ℝ) : onlineStats nCols blockSize row =
    (rowMax ((List.range nCols).map fun v => (row v : WithBot ℝ)),
      total ((List.range nCols).map fun v => (row v : WithBot ℝ))
        (rowMax ((List.range nCols).map fun v => (row v : WithBot ℝ)))) := by
  obtain ⟨k, joined⟩ := flatMap_load block (fun v => (row v : WithBot ℝ)) nCols ⊥
  have whole := online_eq ((starts nCols blockSize).map (Blocks.load (fun v => (row v : WithBot ℝ)) nCols ⊥ blockSize))
  rw [← List.flatMap_def, joined, rowMax_append_bot, total_append_bot, online, List.foldl_map] at whole
  exact whole

/-- The maximum is one of the entries, and the sum is relative to it. -/
theorem onlineStats_spec (columns : 0 < nCols) (block : 0 < blockSize) (row : Nat → ℝ) :
    ∃ m : ℝ, IsGreatest (row '' Set.Iio nCols) m ∧
      onlineStats nCols blockSize row = ((m : WithBot ℝ), ∑ v ∈ Finset.range nCols, exp (row v - m)) := by
  have nonempty : (List.range nCols).map (fun v => (row v : WithBot ℝ)) ≠ [] := by
    simpa using columns.ne'
  obtain ⟨v, member, reached⟩ := List.mem_map.mp (rowMax_mem nonempty)
  refine ⟨row v, ⟨⟨v, List.mem_range.mp member, rfl⟩, ?_⟩, ?_⟩
  · rintro _ ⟨w, inside, rfl⟩
    have below : (row w : WithBot ℝ) ≤ rowMax ((List.range nCols).map fun v => (row v : WithBot ℝ)) :=
      le_rowMax (List.mem_map.mpr ⟨w, List.mem_range.mpr inside, rfl⟩)
    rw [← reached] at below
    exact WithBot.coe_le_coe.mp below
  · rw [onlineStats_eq block, ← reached, total, List.map_map]
    rfl

/-- Relative to any maximum, weights and their sum have the same ratio. -/
theorem softmax_shift (row : Nat → ℝ) (m : ℝ) (v : Nat) :
    exp (row v - m) / ∑ j ∈ Finset.range nCols, exp (row j - m) = softmax nCols row v := by
  have total : ∑ j ∈ Finset.range nCols, exp (row j - m) = partition nCols row / exp m := by
    rw [partition, Finset.sum_div]
    exact Finset.sum_congr rfl fun j _ => exp_sub _ _
  rw [total, exp_sub, softmax, div_div_div_cancel_right₀ (exp_pos m).ne']

theorem overlapPass_eq (block : 0 < blockSize) (p q : Nat → ℝ) : overlapPass nCols blockSize p q =
    (∑ v ∈ Finset.range nCols, min (p v) (q v), ∑ v ∈ Finset.range nCols, if p v ≤ q v then p v else 0) := by
  have pairs (f g : Nat → ℝ) (a b : ℝ) (is : List Nat) :
      is.foldl (fun (x, y) i => (x + f i, y + g i)) (a, b) = (a + (is.map f).sum, b + (is.map g).sum) := by
    induction is generalizing a b with
    | nil => simp
    | cons i is ih => rw [List.foldl_cons, ih, List.map_cons, List.map_cons, List.sum_cons, List.sum_cons, add_assoc,
        add_assoc]
  rw [overlapPass, pairs, sum_blocks block, sum_blocks block, zero_add, zero_add]

end Stats

section Scalars

variable {nCols blockSize : Nat}

/-- The scalars of a row: its loss is the total variation distance of its weights. -/
theorem rowScalars_spec (columns : 0 < nCols) (block : 0 < blockSize) (logits targets : Nat → ℝ) :
    ∃ mP mQ : ℝ, rowScalars nCols blockSize logits targets =
      ⟨tvLoss nCols logits targets, mP, ∑ v ∈ Finset.range nCols, exp (logits v - mP), mQ,
        ∑ v ∈ Finset.range nCols, exp (targets v - mQ), ∑ v ∈ Finset.range nCols,
          if softmax nCols logits v ≤ softmax nCols targets v then softmax nCols logits v else 0⟩ := by
  obtain ⟨mP, -, statsP⟩ := onlineStats_spec columns block logits
  obtain ⟨mQ, -, statsQ⟩ := onlineStats_spec columns block targets
  refine ⟨mP, mQ, ?_⟩
  simp only [rowScalars, statsP, statsQ, weight_coe, softmax_shift, overlapPass_eq block]
  rfl

structure Saved.Holds (saved : Saved) (statsRow r : Nat) (scalars : RowScalars) : Prop where
  loss : saved.loss r = scalars.loss
  mP : saved.stats (statsPtr statsRow 0 r) = scalars.mP
  dP : saved.stats (statsPtr statsRow 1 r) = scalars.dP
  mQ : saved.stats (statsPtr statsRow 2 r) = scalars.mQ
  dQ : saved.stats (statsPtr statsRow 3 r) = scalars.dQ
  sS : saved.stats (statsPtr statsRow 4 r) = scalars.sS

variable {statsRow pid r : Nat}

theorem statsPtr_inj {j k : Nat} (inside : r < statsRow) (other : pid < statsRow) :
    statsPtr statsRow j r = statsPtr statsRow k pid ↔ j = k ∧ r = pid := by
  constructor
  · intro same
    have rest := congrArg (· % statsRow) same
    have quotient := congrArg (· / statsRow) same
    simp only [statsPtr, Nat.mul_add_mod_self_right, Nat.mod_eq_of_lt inside, Nat.mod_eq_of_lt other] at rest
    simp only [statsPtr, Nat.mul_comm _ statsRow, Nat.mul_add_div (Nat.zero_lt_of_lt inside),
      Nat.div_eq_of_lt inside, Nat.div_eq_of_lt other, Nat.add_zero] at quotient
    exact ⟨quotient, rest⟩
  · rintro ⟨rfl, rfl⟩
    rfl

theorem Saved.write_holds (saved : Saved) (scalars : RowScalars) (inside : r < statsRow) :
    (saved.write statsRow r scalars).Holds statsRow r scalars := by
  constructor <;> simp [Saved.write, statsPtr_inj inside inside]

theorem Saved.write_stats_ne (saved : Saved) (inside : r < statsRow) (other : pid < statsRow) (different : r ≠ pid)
    (scalars : RowScalars) (j : Nat) :
    (saved.write statsRow pid scalars).stats (statsPtr statsRow j r) = saved.stats (statsPtr statsRow j r) := by
  simp [Saved.write, statsPtr_inj inside other, different]

/-- Another row's program writes elsewhere. -/
theorem Saved.write_keep {saved : Saved} {scalars : RowScalars} (held : saved.Holds statsRow r scalars)
    (inside : r < statsRow) (other : pid < statsRow) (different : r ≠ pid) (others : RowScalars) :
    (saved.write statsRow pid others).Holds statsRow r scalars := by
  have kept := saved.write_stats_ne inside other different others
  constructor
  case loss => simpa [Saved.write, Function.update_apply, different] using held.loss
  case mP => rw [kept, held.mP]
  case dP => rw [kept, held.dP]
  case mQ => rw [kept, held.mQ]
  case dQ => rw [kept, held.dQ]
  case sS => rw [kept, held.sS]

end Scalars

/-- What one program brings about and no other one undoes holds after all of them. -/
theorem launch_holds {σ : Type*} {P : σ → Prop} {programs : List Nat} {kernel : Nat → σ → σ} {r : Nat}
    (writes : ∀ memory, P (kernel r memory))
    (keep : ∀ pid ∈ programs, pid ≠ r → ∀ memory, P memory → P (kernel pid memory)) (listed : r ∈ programs)
    (memory : σ) : P (launch programs kernel memory) := by
  induction programs using List.reverseRecOn with
  | nil => cases listed
  | append_singleton programs pid ih =>
    rw [launch, List.foldl_append, List.foldl_cons, List.foldl_nil, ← launch]
    by_cases here : pid = r
    · subst here
      exact writes _
    · refine keep pid (by simp) here _ (ih (fun other member => keep other (List.mem_append_left _ member)) ?_)
      exact (List.mem_append.mp listed).resolve_right fun last => here (List.mem_singleton.mp last).symm

section Rows

variable {programs : List Nat} {rows vocab blockSize : Nat} {logits targets : Nat → ℝ} {r : Nat}

theorem forward_holds (order : programs.Perm (List.range rows)) (inside : r < rows) (memory : Saved) :
    (forward programs rows vocab blockSize logits targets memory).Holds rows r
      (rowScalars vocab blockSize (rowOf vocab logits r) (rowOf vocab targets r)) := by
  have listed : r ∈ programs := order.mem_iff.mpr (List.mem_range.mpr inside)
  let scalars := rowScalars vocab blockSize (rowOf vocab logits r) (rowOf vocab targets r)
  refine launch_holds (P := fun saved => saved.Holds rows r scalars) ?_ ?_ listed memory
  · exact fun saved => saved.write_holds _ inside
  · intro pid member different saved held
    exact Saved.write_keep held inside (List.mem_range.mp (order.mem_iff.mp member)) (Ne.symm different) _

/-- Entries of another row lie elsewhere. -/
theorem row_disjoint {pid v : Nat} (inside : v < vocab) (different : pid ≠ r) :
    ¬(pid * vocab ≤ r * vocab + v ∧ r * vocab + v < pid * vocab + vocab) := by
  rcases Nat.lt_or_gt_of_ne different with before | behind
  · have room := Nat.mul_le_mul_right vocab before
    rw [Nat.succ_mul] at room
    omega
  · have room := Nat.mul_le_mul_right vocab behind
    rw [Nat.succ_mul] at room
    omega

/-- What the backward pass works out for an entry is its share of the gradient. -/
theorem gradLane_eq {x : Fin vocab → ℝ} {y : Nat → ℝ} (same : ∀ v : Fin vocab, logits v = x v)
    (go mP mQ : ℝ) {v : Nat} (inside : v < vocab) :
    gradLane go mP (∑ v ∈ Finset.range vocab, exp (logits v - mP)) mQ (∑ v ∈ Finset.range vocab, exp (y v - mQ))
        (∑ v ∈ Finset.range vocab, if softmax vocab logits v ≤ softmax vocab y v then softmax vocab logits v else 0)
        (logits v) (y v) = go * tvGradient x y v := by
  have padded : ∀ v < vocab, logits v = pad x v := by
    intro v within
    rw [pad, dif_pos within]
    exact same ⟨v, within⟩
  have weights : ∀ v < vocab, softmax vocab logits v = softmax vocab (pad x) v :=
    fun v within => softmax_congr padded within
  have mass : (∑ v ∈ Finset.range vocab, if softmax vocab logits v ≤ softmax vocab y v then softmax vocab logits v
      else 0) = lowerMass x y := by
    apply Finset.sum_congr rfl
    intro v member
    rw [indicator, ← weights v (Finset.mem_range.mp member), ite_mul, one_mul, zero_mul]
  simp only [gradLane, weight_coe, softmax_shift, mass]
  rw [tvGradient, indicator, ← weights v inside]
  ring

theorem backward_row (order : programs.Perm (List.range rows)) (inside : r < rows) (gradOut : Nat → ℝ)
    {saved : Saved} {loss mP dP mQ dQ sS : ℝ} (held : saved.Holds rows r ⟨loss, mP, dP, mQ, dQ, sS⟩)
    (block : 0 < blockSize) (gradIn : Nat → ℝ) {v : Nat} (within : v < vocab) :
    backward programs rows vocab blockSize logits targets gradOut saved gradIn (r * vocab + v) =
      if gradOut r = 0 then 0
      else gradLane (gradOut r) mP dP mQ dQ sS (rowOf vocab logits r v) (rowOf vocab targets r v) := by
  have listed : r ∈ programs := order.mem_iff.mpr (List.mem_range.mpr inside)
  rw [backward]
  let lane := if gradOut r = 0 then 0
    else gradLane (gradOut r) mP dP mQ dQ sS (rowOf vocab logits r v) (rowOf vocab targets r v)
  refine launch_holds (P := fun memory : Nat → ℝ => memory (r * vocab + v) = lane) ?_ ?_ listed gradIn
  · intro memory
    simp only [tvBackwardKernel, foldl_store block]
    rw [if_pos (by omega), Nat.add_sub_cancel_left]
    simp only [held.mP, held.dP, held.mQ, held.dQ, held.sS, scalar, WithBot.unbotD_coe]
    rw [ite_apply]
  · intro pid _ different memory kept
    simp only [tvBackwardKernel, foldl_store block]
    rw [if_neg (row_disjoint within different), kept]

end Rows

/-- The fused losses are the eager ones, block by block and in any order of the programs: statistics of a
row, losses, and the gradient handed on. -/
theorem fusedLosses_agree {vocab blockSize rows : Nat} (columns : 0 < vocab) (block : 0 < blockSize)
    (logits targets : Nat → ℝ) {programs backwardPrograms : List Nat} (order : programs.Perm (List.range rows))
    (backwardOrder : backwardPrograms.Perm (List.range rows)) (memory : Saved) :
    (∀ row : Nat → ℝ, ∃ m : ℝ, IsGreatest (row '' Set.Iio vocab) m ∧
      onlineStats vocab blockSize row = ((m : WithBot ℝ), ∑ v ∈ Finset.range vocab, exp (row v - m))) ∧
    ∀ r < rows,
      (forward programs rows vocab blockSize logits targets memory).loss r =
          tvLoss vocab (rowOf vocab logits r) (rowOf vocab targets r) ∧
      fusedNlaLoss (forward programs rows vocab blockSize logits targets memory) r =
          negLogAcceptanceLoss vocab (rowOf vocab logits r) (rowOf vocab targets r) ∧
      ((∀ v < vocab, softmax vocab (rowOf vocab logits r) v ≠ softmax vocab (rowOf vocab targets r) v) →
        ∃ gradient : Fin vocab → ℝ,
          HasFDerivAt (fun x : Fin vocab → ℝ => tvLoss vocab (pad x) (rowOf vocab targets r)) (form gradient)
            (fun v => rowOf vocab logits r v) ∧
          ∀ (gradOut gradIn : Nat → ℝ) (v : Fin vocab),
            backward backwardPrograms rows vocab blockSize logits targets gradOut
              (forward programs rows vocab blockSize logits targets memory) gradIn (r * vocab + v) =
                gradOut r * gradient v) := by
  refine ⟨onlineStats_spec columns block, fun r inside => ?_⟩
  have held : (forward programs rows vocab blockSize logits targets memory).Holds rows r
      (rowScalars vocab blockSize (rowOf vocab logits r) (rowOf vocab targets r)) := forward_holds order inside memory
  obtain ⟨mP, mQ, scalars⟩ := rowScalars_spec columns block (rowOf vocab logits r) (rowOf vocab targets r)
  rw [scalars] at held
  have loss := held.loss
  refine ⟨loss, ?_, fun apart => ?_⟩
  · have eps : (1e-5 : ℝ) = 1 / 100000 := by norm_num
    rw [fusedNlaLoss, loss, tvLoss, sub_sub_cancel, negLogAcceptanceLoss, eps]
  · have padded : ∀ v < vocab, rowOf vocab logits r v = pad (fun v : Fin vocab => rowOf vocab logits r v) v :=
      fun v within => by rw [pad, dif_pos within]
    refine ⟨_, hasFDerivAt_tvLoss columns fun v within => ?_, fun gradOut gradIn v => ?_⟩
    · rw [← softmax_congr padded within]
      exact apart v within
    · rw [backward_row backwardOrder inside gradOut held block gradIn v.isLt]
      split
      next none => rw [none, zero_mul]
      next some_ => exact gradLane_eq (fun _ => rfl) _ mP mQ v.isLt

/-- Two rows of three tokens in blocks of two lanes; in the first one the weights are 3/5, 1/5 and 1/5. -/
theorem fusedLosses_agree_three : ∃ gradient : Fin 3 → ℝ,
    HasFDerivAt (fun x : Fin 3 → ℝ => tvLoss 3 (pad x) (rowOf 3 (fun _ => 0) 0)) (form gradient)
      (fun v => rowOf 3 (fun i => if i = 0 then log 3 else 0) 0 v) ∧
    ∀ (gradOut gradIn : Nat → ℝ) (v : Fin 3),
      backward [0, 1] 2 3 2 (fun i => if i = 0 then log 3 else 0) (fun _ => 0) gradOut
        (forward [1, 0] 2 3 2 (fun i => if i = 0 then log 3 else 0) (fun _ => 0) ⟨fun _ => 0, fun _ => ⊥⟩) gradIn
          (0 * 3 + v) = gradOut 0 * gradient v := by
  refine ((fusedLosses_agree (by decide) (by decide) _ _ (by decide) (by decide) _).2 0 (by decide)).2.2 ?_
  intro v inside
  interval_cases v <;> norm_num [softmax, partition, Finset.sum_range_succ, rowOf, exp_log]

end DreamAifd.FusedTvLoss
