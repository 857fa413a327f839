import Mathlib

/-! Sums of exponentials relative to a maximum. An entry of a row may be `-∞`, which weighs nothing; a
row of nothing else has no softmax. Maximum and sum can be kept up while a row is read piece by piece. -/
namespace DreamAifd.OnlineSoftmax

open Real

/-- The exponential of a difference. Nothing is relative to `-∞` but `-∞` itself. -/
noncomputable def weight : WithBot ℝ → WithBot ℝ → ℝ
  | (x : ℝ), (m : ℝ) => exp (x - m)
  | _, _ => 0

noncomputable def rowMax (row : List (WithBot ℝ)) : WithBot ℝ := row.foldr max ⊥

noncomputable def total (row : List (WithBot ℝ)) (m : WithBot ℝ) : ℝ := (row.map (weight · m)).sum

@[simp] theorem weight_coe (x m : ℝ) : weight x m = exp (x - m) := rfl

@[simp] theorem weight_bot (m : WithBot ℝ) : weight ⊥ m = 0 := by cases m <;> rfl

/-- A change of the reference. -/
theorem weight_mul {x m : WithBot ℝ} (below : x ≤ m) (n : WithBot ℝ) : weight x m * weight m n = weight x n := by
  cases x with
  | bot => rw [weight_bot, weight_bot, zero_mul]
  | coe x =>
    cases m with
    | bot => exact absurd below (by simp)
    | coe m =>
      cases n with
      | bot => exact mul_zero _
      | coe n =>
        rw [weight_coe, weight_coe, weight_coe, ← exp_add]
        congr 1
        ring

variable {row seen block : List (WithBot ℝ)}

theorem le_rowMax {x : WithBot ℝ} (member : x ∈ row) : x ≤ rowMax row := by
  induction row with
  | nil => cases member
  | cons y row ih =>
    rcases List.mem_cons.mp member with rfl | later
    · exact le_max_left _ _
    · exact (ih later).trans (le_max_right _ _)

theorem rowMax_mem (nonempty : row ≠ []) : rowMax row ∈ row := by
  induction row with
  | nil => exact absurd rfl nonempty
  | cons x row ih =>
    rw [rowMax, List.foldr_cons]
    rcases max_choice x (row.foldr max ⊥) with first | later
    · rw [first]
      exact List.mem_cons_self
    · rw [later]
      rcases eq_or_ne row [] with rfl | more
      · rw [List.foldr_nil, max_eq_left bot_le] at later
        rw [later]
        exact List.mem_cons_self
      · exact List.mem_cons_of_mem _ (ih more)

theorem rowMax_append (seen block : List (WithBot ℝ)) : rowMax (seen ++ block) = max (rowMax seen) (rowMax block) := by
  induction seen with
  | nil => exact (max_eq_right bot_le).symm
  | cons x seen ih =>
    have cons (row : List (WithBot ℝ)) : rowMax (x :: row) = max x (rowMax row) := rfl
    rw [List.cons_append, cons, cons, ih, max_assoc]

theorem rowMax_eq_bot_iff : rowMax row = ⊥ ↔ ∀ x ∈ row, x = ⊥ := by
  constructor
  · intro none_ x member
    exact le_bot_iff.mp (none_ ▸ le_rowMax member)
  · intro all
    rcases eq_or_ne row [] with rfl | nonempty
    · rfl
    · exact all _ (rowMax_mem nonempty)

theorem total_append (seen block : List (WithBot ℝ)) (m : WithBot ℝ) :
    total (seen ++ block) m = total seen m + total block m := by
  rw [total, List.map_append, List.sum_append, total, total]

theorem total_mul {m : WithBot ℝ} (below : ∀ x ∈ row, x ≤ m) (n : WithBot ℝ) :
    total row m * weight m n = total row n := by
  induction row with
  | nil => exact zero_mul _
  | cons x row ih =>
    have rest := ih fun y member => below y (List.mem_cons_of_mem _ member)
    rw [total] at rest ⊢
    rw [List.map_cons, List.sum_cons, add_mul, weight_mul (below x List.mem_cons_self), rest, total, total,
      List.map_cons, List.sum_cons]

/-- One piece more: the old sum is rescaled to the new maximum. -/
theorem total_step (seen block : List (WithBot ℝ)) :
    total seen (rowMax seen) * weight (rowMax seen) (rowMax (seen ++ block)) + total block (rowMax (seen ++ block)) =
      total (seen ++ block) (rowMax (seen ++ block)) := by
  rw [total_mul (fun x member => le_rowMax member), total_append]

/-- Maximum and sum of what is read in blocks, every sum relative to the maximum so far. -/
noncomputable def online (blocks : List (List (WithBot ℝ))) : WithBot ℝ × ℝ :=
  blocks.foldl (fun (m, d) block =>
    let mNew := max m (rowMax block)
    (mNew, d * weight m mNew + total block mNew)) (⊥, 0)

theorem online_concat (blocks : List (List (WithBot ℝ))) (block : List (WithBot ℝ)) :
    online (blocks ++ [block]) = (max (online blocks).1 (rowMax block),
      (online blocks).2 * weight (online blocks).1 (max (online blocks).1 (rowMax block)) +
        total block (max (online blocks).1 (rowMax block))) := by
  rw [online, List.foldl_append]
  rfl

/-- However a row is cut into blocks, the result is its own. -/
theorem online_eq (blocks : List (List (WithBot ℝ))) :
    online blocks = (rowMax blocks.flatten, total blocks.flatten (rowMax blocks.flatten)) := by
  induction blocks using List.reverseRecOn with
  | nil => rfl
  | append_singleton blocks block ih =>
    rw [online_concat, ih, List.flatten_append, List.flatten_singleton, ← total_step, rowMax_append]

/-- Entries `-∞` behind a row change nothing. -/
theorem rowMax_append_bot (row : List (WithBot ℝ)) (k : Nat) : rowMax (row ++ List.replicate k ⊥) = rowMax row := by
  have nothing : rowMax (List.replicate k ⊥) = ⊥ := rowMax_eq_bot_iff.mpr fun x member => (List.mem_replicate.mp member).2
  rw [rowMax_append, nothing, max_eq_left bot_le]

theorem total_append_bot (row : List (WithBot ℝ)) (k : Nat) (m : WithBot ℝ) :
    total (row ++ List.replicate k ⊥) m = total row m := by
  have nothing : total (List.replicate k ⊥) m = 0 := by
    rw [total, List.map_replicate, weight_bot, List.sum_replicate, smul_zero]
  rw [total_append, nothing, add_zero]

open Classical in
/-- Softmax weights; `none` stands for NaN, where the maximum itself is `-∞`. -/
noncomputable def softmaxRow (row : List (WithBot ℝ)) : Option (List ℝ) :=
  if rowMax row = ⊥ then none
  else some (row.map fun x => weight x (rowMax row) / total row (rowMax row))

theorem softmaxRow_eq_none_iff : softmaxRow row = none ↔ ∀ x ∈ row, x = ⊥ := by
  rw [← rowMax_eq_bot_iff, softmaxRow]
  split
  next undefined => exact iff_of_true rfl undefined
  next defined => exact iff_of_false (Option.some_ne_none _) defined

end DreamAifd.OnlineSoftmax
