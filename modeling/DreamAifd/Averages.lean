import Mathlib

/-! Averages of finite sequences over an ordered field, with an infinite entry allowed,
and the gap between the average size of a sequence and the size of its average. -/
namespace DreamAifd.Averages

section Field

variable {α : Type*} [Field α]

def mean (xs : List α) : α := xs.sum / xs.length

/-- Mean of entries of which some may be infinite; one of them makes the mean infinite. -/
def meanTop (xs : List (WithTop α)) : WithTop α := xs.sum.map (· / (xs.length : α))

def average (n : Nat) (f : Nat → α) : α := (∑ t ∈ Finset.range n, f t) / n

theorem sum_map_range (f : Nat → α) (n : Nat) :
    ((List.range n).map f).sum = ∑ t ∈ Finset.range n, f t := by
  induction n with
  | zero => rfl
  | succ n ih => simp [List.range_succ, Finset.sum_range_succ, ih]

theorem mean_range (f : Nat → α) (n : Nat) : mean ((List.range n).map f) = average n f := by
  simp [mean, average, sum_map_range]

theorem sum_coe (xs : List α) : (xs.map ((↑) : α → WithTop α)).sum = (xs.sum : α) := by
  induction xs with
  | nil => rfl
  | cons x xs ih => simp [ih]

@[simp] theorem meanTop_coe (xs : List α) :
    meanTop (xs.map ((↑) : α → WithTop α)) = ((mean xs : α) : WithTop α) := by
  simp [meanTop, sum_coe, mean]

theorem meanTop_top {β : Type*} (xs : List β) (nonempty : xs ≠ []) :
    meanTop (xs.map fun _ => (⊤ : WithTop α)) = ⊤ := by
  obtain ⟨x, rest, rfl⟩ := List.exists_cons_of_ne_nil nonempty
  simp [meanTop]

theorem average_congr {n : Nat} {f g : Nat → α} (same : ∀ t < n, f t = g t) :
    average n f = average n g := by
  rw [average, average, Finset.sum_congr rfl fun t ht => same t (Finset.mem_range.mp ht)]

theorem average_add (n : Nat) (f g : Nat → α) :
    average n (fun t => f t + g t) = average n f + average n g := by
  simp [average, Finset.sum_add_distrib, add_div]

theorem average_sub (n : Nat) (f g : Nat → α) :
    average n (fun t => f t - g t) = average n f - average n g := by
  simp [average, Finset.sum_sub_distrib, sub_div]

theorem average_one (f : Nat → α) : average 1 f = f 0 := by simp [average]

theorem average_const [CharZero α] {n : Nat} (positive : 0 < n) (c : α) :
    average n (fun _ => c) = c := by
  have : (n : α) ≠ 0 := Nat.cast_ne_zero.mpr positive.ne'
  simp [average, this]

/-- A sum over `R` blocks of `n` indices each. -/
theorem sum_blocks (R n : Nat) (f : Nat → α) :
    ∑ h ∈ Finset.range (R * n), f h =
      ∑ r ∈ Finset.range R, ∑ i ∈ Finset.range n, f (r * n + i) := by
  induction R with
  | zero => simp
  | succ R ih => rw [Nat.succ_mul, Finset.sum_range_add, ih, Finset.sum_range_succ]

theorem average_single {n k : Nat} (bound : k < n) (c : α) :
    average n (fun t => if t = k then c else 0) = c / n := by
  rw [average, Finset.sum_ite_eq', if_pos (Finset.mem_range.mpr bound)]

variable [LinearOrder α]

/-- How much the average size of a sequence exceeds the size of its average. -/
def gap (n : Nat) (d : Nat → α) : α := average n (fun t => |d t|) - |average n d|

theorem average_abs (n : Nat) (d : Nat → α) :
    average n (fun t => |d t|) = |average n d| + gap n d := by simp [gap]

theorem gap_one (d : Nat → α) : gap 1 d = 0 := by simp [gap, average_one]

end Field

section Ordered

variable {α : Type*} [Field α] [LinearOrder α] [IsStrictOrderedRing α]

/-- One strict comparison makes the averages differ. -/
theorem average_lt {n k : Nat} {f g : Nat → α} (below : ∀ t < n, f t ≤ g t) (hk : k < n)
    (strict : f k < g k) : average n f < average n g := by
  apply div_lt_div_of_pos_right _ (Nat.cast_pos.mpr (Nat.zero_lt_of_lt hk))
  exact Finset.sum_lt_sum (fun t ht => below t (Finset.mem_range.mp ht))
    ⟨k, Finset.mem_range.mpr hk, strict⟩

theorem gap_mul (n : Nat) (d : Nat → α) : gap n d =
    (∑ t ∈ Finset.range n, |d t| - |∑ t ∈ Finset.range n, d t|) / n := by
  rw [gap, average, average, abs_div, Nat.abs_cast, sub_div]

/-- The gap closes exactly on sequences that never change sign. -/
theorem gap_eq_zero_iff {n : Nat} {d : Nat → α} (positive : 0 < n) :
    gap n d = 0 ↔ (∀ t < n, 0 ≤ d t) ∨ (∀ t < n, d t ≤ 0) := by
  have nonzero : (n : α) ≠ 0 := Nat.cast_ne_zero.mpr positive.ne'
  rw [gap_mul, div_eq_zero_iff, or_iff_left nonzero, sub_eq_zero]
  constructor
  · intro equal
    rcases le_total 0 (∑ t ∈ Finset.range n, d t) with up | down
    · rw [abs_of_nonneg up, ← sub_eq_zero, ← Finset.sum_sub_distrib] at equal
      have zero := (Finset.sum_eq_zero_iff_of_nonneg
        (fun t _ => sub_nonneg.mpr (le_abs_self (d t)))).mp equal
      exact .inl fun t ht =>
        abs_eq_self.mp (sub_eq_zero.mp (zero t (Finset.mem_range.mpr ht)))
    · rw [abs_of_nonpos down, ← sub_eq_zero, sub_neg_eq_add, ← Finset.sum_add_distrib] at equal
      have zero := (Finset.sum_eq_zero_iff_of_nonneg
        (fun t _ => neg_le_iff_add_nonneg'.mp (neg_le_abs (d t)))).mp
          (by simpa only [add_comm] using equal)
      exact .inr fun t ht =>
        abs_eq_neg_self.mp (eq_neg_of_add_eq_zero_right (zero t (Finset.mem_range.mpr ht)))
  · rintro (up | down)
    · have sizes : ∀ t ∈ Finset.range n, |d t| = d t :=
        fun t ht => abs_of_nonneg (up t (Finset.mem_range.mp ht))
      rw [Finset.sum_congr rfl sizes,
        abs_of_nonneg (Finset.sum_nonneg fun t ht => up t (Finset.mem_range.mp ht))]
    · have sizes : ∀ t ∈ Finset.range n, |d t| = -d t :=
        fun t ht => abs_of_nonpos (down t (Finset.mem_range.mp ht))
      rw [Finset.sum_congr rfl sizes, Finset.sum_neg_distrib,
        abs_of_nonpos (Finset.sum_nonpos fun t ht => down t (Finset.mem_range.mp ht))]

end Ordered

end DreamAifd.Averages
