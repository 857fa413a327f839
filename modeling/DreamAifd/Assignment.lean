import DreamAifd.SelectLayers

/-! Assignments unit by unit. A unit is the run of tokens that share one choice: a request in
sample granularity, a single token in token granularity. Both granularities then read alike. -/
namespace DreamAifd

open Averages FirstMin Segments

variable {α : Type*} [Field α] [LinearOrder α]

def units (granularity : Granularity) (seqLens : List Nat) : List Nat :=
  match granularity with
  | .sample => seqLens
  | .token => List.replicate seqLens.sum 1

theorem sum_units (granularity : Granularity) (seqLens : List Nat) :
    (units granularity seqLens).sum = seqLens.sum := by
  cases granularity <;> simp [units]

theorem units_pos {granularity : Granularity} {seqLens : List Nat}
    (nonempty : ∀ n ∈ seqLens, 0 < n) : ∀ n ∈ units granularity seqLens, 0 < n := by
  cases granularity with
  | sample => exact nonempty
  | token => simp [units]

theorem units_bound {granularity : Granularity} {seqLens : List Nat} {k : Nat}
    (hk : k < (units granularity seqLens).length) :
    start (units granularity seqLens) k + (units granularity seqLens)[k] ≤ seqLens.sum :=
  sum_units granularity seqLens ▸ start_add_length_le hk

def unitScore (He : Nat → Nat → α) (offset n l : Nat) : α :=
  average n fun t => score He l (offset + t)

/-- Token granularity is sample granularity with a request for every token. -/
theorem assignLayers_units (granularity : Granularity) (candidates : List Int) (L : Nat)
    (He : Nat → Nat → α) (seqLens : List Nat) :
    assignLayers granularity candidates true
        (scoreMatrix (entropyRows L seqLens.sum He)) seqLens =
      assignLayers .sample candidates true (scoreMatrix (entropyRows L seqLens.sum He))
        (units granularity seqLens) := by
  cases granularity with
  | sample => rfl
  | token =>
    have rows : ∀ row ∈ scoreMatrix (entropyRows L seqLens.sum He), row.length = seqLens.sum := by
      cases L with
      | zero => simp [entropyRows, scoreMatrix]
      | succ L => simp [scoreMatrix_entropyRows]
    simp only [assignLayers, units, forSegments_ones, List.replicate_one, Nat.zero_add]
    rw [← List.map_eq_flatMap]
    refine List.map_congr_left fun t member => congrArg _ (congrArg argmin ?_)
    refine List.map_congr_left fun row held => (segmentMean_one ?_).symm
    rw [rows row held]
    exact List.mem_range.mp member

/-- Assignments are equal exactly when the choices on every unit are. -/
theorem assignLayers_eq_iff {candidates : List Int} (distinct : candidates.Nodup)
    (nonempty : candidates ≠ []) {scores scores' : List (List (WithTop α))}
    (size : scores.length = candidates.length) (size' : scores'.length = candidates.length)
    {lengths : List Nat} (positive : ∀ n ∈ lengths, 0 < n) :
    assignLayers .sample candidates true scores lengths =
        assignLayers .sample candidates true scores' lengths ↔
      ∀ k (hk : k < lengths.length),
        sampleChoice true scores (start lengths k) lengths[k] =
          sampleChoice true scores' (start lengths k) lengths[k] := by
  have filled {rows : List (List (WithTop α))} (size : rows.length = candidates.length) :
      rows ≠ [] := List.length_pos_iff.mp (size ▸ List.length_pos_iff.mpr nonempty)
  constructor
  · intro same k hk
    have window := congrArg (slice (start lengths k) lengths[k]) same
    rw [slice_assignLayers, slice_assignLayers,
      List.replicate_right_inj (positive _ (List.getElem_mem hk)).ne',
      candId_inj distinct (size ▸ sampleChoice_lt (filled size) true _ _)
        (size' ▸ sampleChoice_lt (filled size') true _ _)] at window
    exact window
  · intro agree
    apply forSegments_congr
    intro k hk
    rw [Nat.zero_add, agree k hk]

/-- Entropies that do not vary over the tokens. -/
theorem unitScore_const [IsStrictOrderedRing α] {He : Nat → Nat → α} {c : Nat → α} {l : Nat} (now : ∀ t, He l t = c l)
    (before : ∀ t, He (l - 1) t = c (l - 1)) {offset n : Nat} (positive : 0 < n) :
    unitScore He offset n l = c l + |c l - c (l - 1)| := by
  simp only [unitScore, score, now, before]
  exact average_const positive _

theorem sampleChoice_unit_iff {L T : Nat} (many : 2 ≤ L) {He : Nat → Nat → α} {offset n : Nat}
    (bound : offset + n ≤ T) (positive : 0 < n) {i : Nat} :
    sampleChoice true (scoreMatrix (entropyRows L T He)) offset n = i ↔
      IsFirstMin (unitScore He offset n) (region L) i :=
  sampleChoice_iff many bound positive

/-- Two sets of entropies lead to the same assignment exactly when on every unit the leftmost
minimiser of the one is that of the other. -/
theorem assignLayers_agree_iff {candidates : List Int}
    (distinct : candidates.Nodup) (filled : candidates ≠ []) {seqLens : List Nat}
    (nonempty : ∀ n ∈ seqLens, 0 < n) (granularity : Granularity) (He He' : Nat → Nat → α) :
    assignLayers granularity candidates true
        (scoreMatrix (entropyRows candidates.length seqLens.sum He')) seqLens =
      assignLayers granularity candidates true
        (scoreMatrix (entropyRows candidates.length seqLens.sum He)) seqLens ↔
    ∀ k (hk : k < (units granularity seqLens).length) best,
      IsFirstMin (unitScore He (start (units granularity seqLens) k) (units granularity seqLens)[k])
        (region candidates.length) best →
      IsFirstMin (unitScore He' (start (units granularity seqLens) k) (units granularity seqLens)[k])
        (region candidates.length) best := by
  have size (He : Nat → Nat → α) := length_scoreMatrix_entropyRows candidates.length seqLens.sum He
  rw [assignLayers_units, assignLayers_units,
    assignLayers_eq_iff distinct filled (size He') (size He) (units_pos nonempty)]
  refine forall_congr' fun k => forall_congr' fun hk => ?_
  have positive := units_pos nonempty _ (List.getElem_mem hk)
  have bound := units_bound hk
  by_cases many : 2 ≤ candidates.length
  · constructor
    · intro same best documented
      rw [← sampleChoice_unit_iff many bound positive] at documented ⊢
      rw [same, documented]
    · intro kept
      have chosen : sampleChoice true (scoreMatrix (entropyRows candidates.length seqLens.sum He))
        (start (units granularity seqLens) k) (units granularity seqLens)[k] = _ := rfl
      exact (sampleChoice_unit_iff many bound positive).mpr
        (kept _ ((sampleChoice_unit_iff many bound positive).mp chosen))
  · have single : candidates.length = 1 := by
      have := List.length_pos_iff.mpr filled
      omega
    rw [single, sampleChoice_single, sampleChoice_single]
    exact iff_of_true rfl fun best documented =>
      absurd documented.mem (fun inside => by have := inside.1; have := inside.2; omega)

end DreamAifd
