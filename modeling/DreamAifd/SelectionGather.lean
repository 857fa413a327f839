import DreamAifd.NoteLayer

/-! Selection and gathering as one: from the cumulative lengths of a step and the entropies of
the candidates to the rows of the emitted channel. -/
namespace DreamAifd

open FirstMin Segments Trace

variable {α ρ : Type*}

section Lengths

/-- Differencing loses nothing: the ends are the running sums of the lengths. -/
theorem cumulative_cumulativeToLengths (cu : CumulativeLengths) :
    cumulative 0 (cumulativeToLengths cu.ends) = cu.ends := by
  have sums (offset : Nat) (ends : List Nat) (sorted : (offset :: ends).Pairwise (· ≤ ·)) :
      cumulative offset (List.zipWith (· - ·) ends (offset :: ends)) = ends := by
    induction ends generalizing offset with
    | nil => rfl
    | cons e ends ih =>
      obtain ⟨above, later⟩ := List.pairwise_cons.mp sorted
      have reach : offset ≤ e := above e (by simp)
      rw [List.zipWith_cons_cons, cumulative, Nat.add_sub_cancel' reach, ih e later]
  obtain ⟨ends, sorted⟩ := cu
  cases ends with
  | nil => rfl
  | cons first rest =>
    simp only [cumulativeToLengths, cumulative, Nat.zero_add]
    rw [sums first rest sorted]

/-- The last end is the number of tokens. -/
theorem sum_cumulativeToLengths {cu : CumulativeLengths} {T : Nat} (last : cu.ends.getLast? = some T) :
    (cumulativeToLengths cu.ends).sum = T := by
  rw [← cumulative_cumulativeToLengths cu] at last
  generalize cumulativeToLengths cu.ends = lengths at last ⊢
  rw [List.getLast?_eq_getElem?, length_cumulative] at last
  rcases Nat.eq_zero_or_pos lengths.length with none | some_segment
  · simp [List.length_eq_zero_iff.mp none, cumulative] at last
  · rw [getElem?_cumulative 0 _ (Nat.sub_lt some_segment Nat.one_pos),
      Nat.sub_add_cancel some_segment, Nat.zero_add, Option.some.injEq, start, List.take_length] at last
    exact last

/-- The segments tile their positions in order. -/
theorem forSegments_range' (offset : Nat) (lengths : List Nat) :
    forSegments (fun first n => List.range' first n) offset lengths = List.range' offset lengths.sum := by
  induction lengths generalizing offset with
  | nil => rfl
  | cons n lengths ih =>
    rw [forSegments, ih, List.sum_cons, List.range'_append_1]

end Lengths

/-- What a forward has collected for a step of `T` tokens when its last layer is through. -/
structure Collected (s : AifdState α ρ) (T : Nat) (He : Nat → Nat → α) (row : Int → Nat → ρ)
    (cu : CumulativeLengths) : Prop where
  many : 2 ≤ s.candidates.length
  distinct : s.candidates.Nodup
  entropy : StoredEntropy s T He
  hidden : StoredHidden s T row
  only : ∀ c ∈ s.hidden.keys, c ∈ s.candidates
  segmented : s.seqLengths = some (cumulativeToLengths cu.ends)
  last : cu.ends.getLast? = some T

namespace Collected

variable {s : AifdState α ρ} {T : Nat} {He : Nat → Nat → α} {row : Int → Nat → ρ}
  {cu : CumulativeLengths} (collected : Collected s T He row cu)

include collected

theorem some_layer : 0 < s.candidates.length := Nat.lt_of_lt_of_le Nat.two_pos collected.many

theorem nonempty : s.candidates ≠ [] := List.length_pos_iff.mp collected.some_layer

theorem some_segment : cumulativeToLengths cu.ends ≠ [] := by
  intro none
  have ends := cumulative_cumulativeToLengths cu
  have last := collected.last
  rw [none, cumulative] at ends
  rw [← ends] at last
  contradiction

theorem size_entropy : s.entropy.size ≠ 0 :=
  Finset.card_ne_zero_of_mem (Dict.mem_keys.mpr ⟨_, collected.entropy 0 collected.some_layer⟩)

theorem size_hidden : s.hidden.size = s.candidates.length := by
  have keys : s.hidden.keys = s.candidates.toFinset := by
    ext c
    rw [List.mem_toFinset]
    exact ⟨collected.only c, fun member => Dict.mem_keys.mpr ⟨_, collected.hidden c member⟩⟩
  rw [Dict.size, keys, List.toFinset_card_of_nodup collected.distinct]

end Collected

variable [Field α] [LinearOrder α]

def scoreColumn (L T : Nat) (He : Nat → Nat → α) (t l : Nat) : WithTop α :=
  ((scoreMatrix (entropyRows L T He)).getD l []).getD t ⊤

theorem tokenChoice_firstMin {L : Nat} (some_layer : 0 < L) (T : Nat) (He : Nat → Nat → α) (t : Nat) :
    IsFirstMin (scoreColumn L T He t) (Set.Iio L) (tokenChoice (scoreMatrix (entropyRows L T He)) t) := by
  have rows := eq_map_range_getD (scoreMatrix (entropyRows L T He)) []
    (length_scoreMatrix_entropyRows L T He)
  have column : (scoreMatrix (entropyRows L T He)).map (fun row => row.getD t ⊤) =
      (List.range L).map (scoreColumn L T He t) := by
    conv_lhs => rw [rows, List.map_map]
    rfl
  rw [tokenChoice, column]
  exact argmin_isFirstMin _ L some_layer

def assignedLayer (s : AifdState α ρ) (T : Nat) (He : Nat → Nat → α) (cu : CumulativeLengths) (t : Nat) : Int :=
  (assignLayers s.granularity s.candidates s.keepBos (scoreMatrix (entropyRows s.candidates.length T He))
    (cumulativeToLengths cu.ends)).getD t 0

namespace Collected

variable {s : AifdState α ρ} {T : Nat} {He : Nat → Nat → α} {row : Int → Nat → ρ}
  {cu : CumulativeLengths} (collected : Collected s T He row cu)

include collected

theorem assignLayers_eq :
    assignLayers s.granularity s.candidates s.keepBos (scoreMatrix (entropyRows s.candidates.length T He))
      (cumulativeToLengths cu.ends) = (List.range T).map (assignedLayer s T He cu) :=
  eq_map_range_getD _ 0 ((length_assignLayers ..).trans (sum_cumulativeToLengths collected.last))

theorem selectLayers_eq :
    selectLayers s s.keepBos = .ok (some ((List.range T).map (assignedLayer s T He cu))) := by
  rw [selectLayers_stored collected.nonempty collected.entropy collected.segmented
    collected.some_segment (sum_cumulativeToLengths collected.last), collected.assignLayers_eq]

theorem assigned_mem {t : Nat} (inside : t < T) : assignedLayer s T He cu t ∈ s.candidates := by
  have size := length_scoreMatrix_entropyRows s.candidates.length T He
  apply assignLayers_mem collected.nonempty size s.granularity s.keepBos (cumulativeToLengths cu.ends)
  rw [collected.assignLayers_eq]
  exact List.mem_map.mpr ⟨t, List.mem_range.mpr inside, rfl⟩

theorem gather_eq : gatherPerRequest s ((List.range T).map (assignedLayer s T He cu)) =
    .ok ((List.range T).map fun t => row (assignedLayer s T He cu t) t) :=
  gatherPerRequest_stored collected.nonempty collected.hidden fun _ inside => collected.assigned_mem inside

theorem assigned_token (token : s.granularity = .token) {t : Nat} (inside : t < T) :
    ∃ l, IsFirstMin (scoreColumn s.candidates.length T He t) (Set.Iio s.candidates.length) l ∧
      assignedLayer s T He cu t = candId s.candidates l := by
  refine ⟨_, tokenChoice_firstMin collected.some_layer T He t, ?_⟩
  rw [assignedLayer, token, assignLayers, sum_cumulativeToLengths collected.last]
  simp [inside]

omit collected in
theorem assigned_sample (sample : s.granularity = .sample) {k : Nat}
    (hk : k < (cumulativeToLengths cu.ends).length) {i : Nat} (inside : i < (cumulativeToLengths cu.ends)[k]) :
    assignedLayer s T He cu (start (cumulativeToLengths cu.ends) k + i) =
      candId s.candidates (sampleChoice s.keepBos (scoreMatrix (entropyRows s.candidates.length T He))
        (start (cumulativeToLengths cu.ends) k) (cumulativeToLengths cu.ends)[k]) := by
  rw [assignedLayer, sample, ← getD_slice inside, slice_assignLayers]
  simp [inside]

end Collected

/-- The emitted row of every token is the stored row of the candidate assigned to it. -/
theorem emittedRow_selected {p : Pass α ρ} {T : Nat} {He : Nat → Nat → α} {row : Int → Nat → ρ}
    {cu : CumulativeLengths} (collected : Collected p.state T He row cu) :
    ∃ chosen : Nat → Int,
      selectLayers p.state p.state.keepBos = .ok (some ((List.range T).map chosen)) ∧
      (∀ t < T, chosen t ∈ p.state.candidates) ∧
      gatherPerRequest p.state ((List.range T).map chosen) =
        .ok ((List.range T).map fun t => row (chosen t) t) ∧
      (∀ value, value.length = T → T ≠ 1 → emit value p =
        .done ⟨p.state.reset, p.auxList ++ [(List.range T).map fun t => row (chosen t) t]⟩) ∧
      (p.state.granularity = .token → ∀ t < T, ∃ l,
        IsFirstMin (scoreColumn p.state.candidates.length T He t) (Set.Iio p.state.candidates.length) l ∧
          chosen t = candId p.state.candidates l) ∧
      (p.state.granularity = .sample → ∀ k (hk : k < (cumulativeToLengths cu.ends).length), ∃ c,
        ∀ i < (cumulativeToLengths cu.ends)[k], chosen (start (cumulativeToLengths cu.ends) k + i) = c) ∧
      cumulative 0 (cumulativeToLengths cu.ends) = cu.ends ∧
      forSegments (fun first n => List.range' first n) 0 (cumulativeToLengths cu.ends) = List.range T := by
  refine ⟨assignedLayer p.state T He cu, collected.selectLayers_eq, fun t => collected.assigned_mem,
    collected.gather_eq, fun value size many => ?_, fun token t => collected.assigned_token token,
    fun sample k hk => ⟨_, fun i => Collected.assigned_sample sample hk⟩,
    cumulative_cumulativeToLengths cu, ?_⟩
  · exact emit_selected (size ▸ many) collected.size_entropy collected.size_hidden
      collected.selectLayers_eq collected.gather_eq
  · rw [forSegments_range', sum_cumulativeToLengths collected.last, List.range_eq_range']

section Pair

def pairEntropy (l t : Nat) : ℚ := if l = 0 then 1 else t

def pairRow (c : Int) (t : Nat) : Nat := 10 * c.toNat + t

/-- Two candidates after a step of a two-token and a one-token request. -/
def pairState : AifdState ℚ Nat where
  candidates := [3, 5]
  entropy := (Dict.empty.set 3 ((List.range 3).map (pairEntropy 0))).set 5
    ((List.range 3).map (pairEntropy 1))
  hidden := (Dict.empty.set 3 ((List.range 3).map (pairRow 3))).set 5 ((List.range 3).map (pairRow 5))
  seqLengths := some [2, 1]
  granularity := .token
  enabled := true
  numLayers := 8

theorem collected_pairState : Collected pairState 3 pairEntropy pairRow (.of [2, 1]) where
  many := le_rfl
  distinct := by decide
  entropy := by
    intro l bound
    have few : l < 2 := bound
    interval_cases l <;> simp [pairState, Dict.get?_set]
  hidden := by
    intro c member
    have listed : c = 3 ∨ c = 5 := by simpa [pairState] using member
    rcases listed with rfl | rfl <;> simp [pairState, Dict.get?_set]
  only := by
    intro c held
    obtain ⟨rows, found⟩ := Dict.mem_keys.mp held
    by_contra other
    have apart : c ≠ 3 ∧ c ≠ 5 := by simpa [pairState] using other
    simp [pairState, Dict.get?_set, apart] at found
  segmented := rfl
  last := rfl

theorem emittedRow_selected_pair : ∃ chosen : Nat → Int,
    selectLayers pairState true = .ok (some ((List.range 3).map chosen)) ∧
      ∀ t < 3, chosen t ∈ pairState.candidates := by
  obtain ⟨chosen, selected, listed, -⟩ := emittedRow_selected (p := ⟨pairState, []⟩) collected_pairState
  exact ⟨chosen, selected, listed⟩

end Pair

end DreamAifd
