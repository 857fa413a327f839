import Mathlib

/-! Leftmost minimisers. `IsFirstMin` is the order-theoretic notion over any region of
indices; `argmin` is the list scan of array libraries, and every comparison of two
selections goes through the former. -/
namespace DreamAifd.FirstMin

variable {ι κ β γ : Type*} [LinearOrder ι] [LinearOrder κ] [LinearOrder β] [LinearOrder γ]

/-- `i` is the least index of the region at which `f` is minimal. -/
structure IsFirstMin (f : ι → β) (region : Set ι) (i : ι) : Prop where
  mem : i ∈ region
  le : ∀ j ∈ region, f i ≤ f j
  lt : ∀ j ∈ region, j < i → f i < f j

theorem IsFirstMin.unique {f : ι → β} {region : Set ι} {i j : ι}
    (hi : IsFirstMin f region i) (hj : IsFirstMin f region j) : i = j := by
  rcases lt_trichotomy i j with less | same | greater
  · exact absurd (hi.le j hj.mem) (not_le.mpr (hj.lt i hi.mem less))
  · exact same
  · exact absurd (hj.le i hi.mem) (not_le.mpr (hi.lt j hj.mem greater))

theorem IsFirstMin.congr {f g : ι → β} {region : Set ι} {i : ι}
    (same : ∀ j ∈ region, f j = g j) (h : IsFirstMin f region i) : IsFirstMin g region i where
  mem := h.mem
  le j hj := by rw [← same i h.mem, ← same j hj]; exact h.le j hj
  lt j hj less := by rw [← same i h.mem, ← same j hj]; exact h.lt j hj less

theorem isFirstMin_congr {f g : ι → β} {region : Set ι} {i : ι}
    (same : ∀ j ∈ region, f j = g j) : IsFirstMin f region i ↔ IsFirstMin g region i :=
  ⟨.congr same, .congr fun j hj => (same j hj).symm⟩

/-- Renumbering the indices in order renumbers the leftmost minimiser. -/
theorem isFirstMin_image {f : ι → β} {e : κ → ι} (mono : StrictMono e)
    {region : Set κ} {i : κ} :
    IsFirstMin f (e '' region) (e i) ↔ IsFirstMin (f ∘ e) region i := by
  constructor
  · intro h
    have member : i ∈ region := by
      obtain ⟨j, hj, same⟩ := h.mem
      exact mono.injective same ▸ hj
    exact ⟨member, fun j hj => h.le _ ⟨j, hj, rfl⟩,
      fun j hj less => h.lt _ ⟨j, hj, rfl⟩ (mono less)⟩
  · intro h
    refine ⟨⟨i, h.mem, rfl⟩, ?_, ?_⟩
    · rintro _ ⟨j, hj, rfl⟩
      exact h.le j hj
    · rintro _ ⟨j, hj, rfl⟩ less
      exact h.lt j hj (mono.lt_iff_lt.mp less)

/-- Where there is one index to choose, the values do not matter. -/
theorem isFirstMin_of_only {f : ι → β} {region : Set ι} {i : ι} (member : i ∈ region)
    (only : ∀ j ∈ region, j = i) : IsFirstMin f region i :=
  ⟨member, fun j hj => (only j hj ▸ le_rfl), fun j hj less => absurd (only j hj) less.ne⟩

theorem exists_isFirstMin (f : ι → β) {region : Set ι} (finite : region.Finite)
    (nonempty : region.Nonempty) : ∃ i, IsFirstMin f region i := by
  obtain ⟨best, member, minimal⟩ := Set.exists_min_image region f finite nonempty
  have finiteBest : (region ∩ {j | f j = f best}).Finite := finite.inter_of_left _
  obtain ⟨i, ⟨hi, same⟩, least⟩ :=
    Set.exists_min_image _ id finiteBest ⟨best, member, rfl⟩
  refine ⟨i, hi, fun j hj => same.trans_le (minimal j hj), fun j hj less => ?_⟩
  apply lt_of_le_of_ne (same.trans_le (minimal j hj))
  intro equal
  exact absurd (least j ⟨hj, equal.symm.trans same⟩) (not_le.mpr less)

/-- Adding an index below the region: another one stays the choice exactly when it
scores strictly lower than the new index. -/
theorem isFirstMin_insert_least {f : ι → β} {region : Set ι} {a i : ι}
    (below : ∀ j ∈ region, a < j) (member : i ∈ region) :
    IsFirstMin f (insert a region) i ↔ IsFirstMin f region i ∧ f i < f a := by
  constructor
  · intro h
    exact ⟨⟨member, fun j hj => h.le j (.inr hj), fun j hj => h.lt j (.inr hj)⟩,
      h.lt a (.inl rfl) (below i member)⟩
  · rintro ⟨h, less⟩
    refine ⟨.inr member, ?_, ?_⟩
    · rintro j (rfl | hj)
      · exact less.le
      · exact h.le j hj
    · rintro j (rfl | hj) before
      · exact less
      · exact h.lt j hj before

/-- A new index below the region leaves the choice alone exactly when somebody beats it. -/
theorem isFirstMin_insert_eq_iff {f : ι → β} {region : Set ι} {a i j : ι}
    (below : ∀ k ∈ region, a < k) (hi : IsFirstMin f region i)
    (hj : IsFirstMin f (insert a region) j) : i = j ↔ ∃ k ∈ region, f k < f a := by
  constructor
  · rintro rfl
    exact ⟨i, hi.mem, ((isFirstMin_insert_least below hi.mem).mp hj).2⟩
  · rintro ⟨k, hk, less⟩
    exact ((isFirstMin_insert_least below hi.mem).mpr ⟨hi, (hi.le k hk).trans_lt less⟩).unique hj

/-- The choice under `f` survives a change of the scores exactly when no competitor gains
more on it than the margin it had, and an earlier competitor not even as much. -/
def Robust [AddGroup β] (f change : ι → β) (region : Set ι) (i : ι) : Prop :=
  ∀ j ∈ region, change i - change j ≤ f j - f i ∧ (j < i → change i - change j < f j - f i)

theorem robust_iff [AddCommGroup β] [IsOrderedAddMonoid β] {f change : ι → β}
    {region : Set ι} {i : ι} (h : IsFirstMin f region i) :
    IsFirstMin (fun j => f j + change j) region i ↔ Robust f change region i := by
  have le_iff (j : ι) : f i + change i ≤ f j + change j ↔ change i - change j ≤ f j - f i := by
    rw [sub_le_sub_iff, add_comm (change i)]
  have lt_iff (j : ι) : f i + change i < f j + change j ↔ change i - change j < f j - f i := by
    rw [sub_lt_sub_iff, add_comm (change i)]
  constructor
  · exact fun k j hj => ⟨(le_iff j).mp (k.le j hj), fun less => (lt_iff j).mp (k.lt j hj less)⟩
  · exact fun k => ⟨h.mem, fun j hj => (le_iff j).mpr (k j hj).1,
      fun j hj less => (lt_iff j).mpr ((k j hj).2 less)⟩

theorem robust_of_change_eq [AddCommGroup β] [IsOrderedAddMonoid β] {f change : ι → β}
    {region : Set ι} {i : ι} (h : IsFirstMin f region i)
    (same : ∀ j ∈ region, change j = change i) : Robust f change region i := by
  intro j hj
  rw [same j hj, sub_self]
  exact ⟨sub_nonneg.mpr (h.le j hj), fun less => sub_pos.mpr (h.lt j hj less)⟩

/-- Position of the first minimal entry; an empty list has none and yields 0. -/
def argmin : List β → Nat
  | [] => 0
  | x :: xs => if ∀ y ∈ xs, x ≤ y then 0 else argmin xs + 1

theorem argmin_isFirstMin (f : Nat → β) (n : Nat) (positive : 0 < n) :
    IsFirstMin f (Set.Iio n) (argmin ((List.range n).map f)) := by
  induction n generalizing f with
  | zero => omega
  | succ n ih =>
    rw [List.range_succ_eq_map, List.map_cons, List.map_map, argmin]
    split
    next first =>
      have smallest : ∀ j ∈ Set.Iio (n + 1), f 0 ≤ f j := by
        intro j hj
        cases j with
        | zero => exact le_rfl
        | succ j =>
          exact first _ (List.mem_map.mpr ⟨j, List.mem_range.mpr (by simpa using hj), rfl⟩)
      exact ⟨by simp, smallest, fun j _ less => absurd less (Nat.not_lt_zero j)⟩
    next later =>
      simp only [List.mem_map, List.mem_range, Function.comp_apply, not_forall, not_le] at later
      obtain ⟨_, ⟨k, hk, rfl⟩, less⟩ := later
      have rest := ih (f ∘ Nat.succ) (by omega)
      have beats : f (argmin ((List.range n).map (f ∘ Nat.succ)) + 1) < f 0 :=
        (rest.le k hk).trans_lt less
      refine ⟨Nat.succ_lt_succ rest.mem, ?_, ?_⟩
      · intro j hj
        cases j with
        | zero => exact beats.le
        | succ j => exact rest.le j (by simpa using hj)
      · intro j hj before
        cases j with
        | zero => exact beats
        | succ j => exact rest.lt j (by simpa using hj) (by simpa using before)

/-- Scan of a window that starts at `a`. -/
theorem argmin_window_eq_iff {f : Nat → β} {a n w : Nat} (positive : 0 < n) :
    a + argmin ((List.range n).map fun i => f (a + i)) = w ↔ IsFirstMin f (Set.Ico a (a + n)) w := by
  have mono : StrictMono (a + ·) := fun _ _ less => Nat.add_lt_add_left less a
  have image : (a + ·) '' Set.Iio n = Set.Ico a (a + n) := by
    ext l
    constructor
    · rintro ⟨i, hi, rfl⟩
      have : i < n := hi
      exact ⟨by simp, by simpa⟩
    · rintro ⟨low, high⟩
      exact ⟨l - a, show l - a < n by omega, show a + (l - a) = l by omega⟩
  have chosen := (isFirstMin_image mono).mpr (argmin_isFirstMin (f ∘ (a + ·)) n positive)
  rw [image] at chosen
  exact ⟨fun h => h ▸ chosen, chosen.unique⟩

theorem argmin_map_strictMono {g : β → γ} (mono : StrictMono g) (xs : List β) :
    argmin (xs.map g) = argmin xs := by
  induction xs with
  | nil => rfl
  | cons x xs ih => simp only [List.map_cons, argmin, List.forall_mem_map, mono.le_iff_le, ih]

/-- An entry of infinite score in front is never chosen while a finite one follows. -/
theorem argmin_top_cons (xs : List β) (nonempty : xs ≠ []) :
    argmin ((⊤ : WithTop β) :: xs.map (↑)) = argmin xs + 1 := by
  have finite : ¬ ∀ y ∈ xs.map ((↑) : β → WithTop β), (⊤ : WithTop β) ≤ y := by
    obtain ⟨x, rest, rfl⟩ := List.exists_cons_of_ne_nil nonempty
    intro all
    exact absurd (all x (by simp)) (by simp)
  rw [argmin, if_neg finite, argmin_map_strictMono WithTop.coe_strictMono]

/-- Behind an infinite first entry the choice is the leftmost minimiser of the others. -/
theorem argmin_top_range_eq_iff {L : Nat} (many : 2 ≤ L) (f : Nat → β) (i : Nat) :
    argmin ((⊤ : WithTop β) :: (List.range (L - 1)).map fun l => (f (l + 1) : WithTop β)) = i ↔
      IsFirstMin f (Set.Ico 1 L) i := by
  have tail : (List.range (L - 1)).map (fun l => (f (l + 1) : WithTop β)) =
      ((List.range (L - 1)).map fun l => f (l + 1)).map (↑) := by rw [List.map_map]; rfl
  have image : Set.Ico 1 L = Nat.succ '' Set.Iio (L - 1) := by
    ext l
    constructor
    · rintro ⟨low, high⟩
      exact ⟨l - 1, show l - 1 < L - 1 by omega, by omega⟩
    · rintro ⟨j, hj, rfl⟩
      have : j < L - 1 := hj
      exact ⟨by omega, by omega⟩
  have mono : StrictMono Nat.succ := fun _ _ => Nat.succ_lt_succ
  have chosen := argmin_isFirstMin (f ∘ Nat.succ) (L - 1) (by omega)
  have shifted := (isFirstMin_image mono).mpr chosen
  rw [← image] at shifted
  rw [tail, argmin_top_cons _ (by simp; omega)]
  exact ⟨fun h => h ▸ shifted, shifted.unique⟩

theorem argmin_lt_length (xs : List β) (nonempty : xs ≠ []) : argmin xs < xs.length := by
  induction xs with
  | nil => contradiction
  | cons x xs ih =>
    rw [argmin]
    split
    · simp
    next later =>
      have rest : xs ≠ [] := by rintro rfl; simp at later
      exact Nat.succ_lt_succ (ih rest)

theorem getD_argmin_le (xs : List β) (default : β) : ∀ y ∈ xs, xs.getD (argmin xs) default ≤ y := by
  induction xs with
  | nil => simp
  | cons x xs ih =>
    rw [argmin]
    split
    next first =>
      rintro y (_ | ⟨_, member⟩)
      · exact le_rfl
      · exact first y member
    next later =>
      push Not at later
      obtain ⟨z, member, less⟩ := later
      rw [List.getD_cons_succ]
      rintro y (_ | ⟨_, other⟩)
      · exact (ih z member).trans less.le
      · exact ih y other

end DreamAifd.FirstMin
