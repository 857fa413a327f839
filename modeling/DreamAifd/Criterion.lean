import DreamAifd.SelectLayers

/-! The per-request criterion of the module header, which averages a request's entropies
before it takes differences between layers, against the selection, which averages the
per-token scores. The two scores of a layer differ by the gap between the mean size of its
per-token differences and the size of their mean. -/
namespace DreamAifd.Criterion

open Averages FirstMin Segments

variable {α ρ : Type*} [Field α]

def requestMean (He : Nat → Nat → α) (offset n l : Nat) : α := average n fun t => He l (offset + t)

theorem means_entropyRows (N T : Nat) (ce : Nat → Nat → α) :
    (entropyRows N T ce).map mean = (List.range N).map (requestMean ce 0 T) := by
  rw [entropyRows, List.map_map]
  apply List.map_congr_left
  intro l _
  rw [Function.comp_apply, mean_range]
  simp [requestMean]

variable [LinearOrder α]

def documentedScore (He : Nat → Nat → α) (offset n l : Nat) : α :=
  requestMean He offset n l + |requestMean He offset n l - requestMean He offset n (l - 1)|

/-- Closed exactly on layers whose entropy moves in one direction over the whole request. -/
def signGap (He : Nat → Nat → α) (offset n l : Nat) : α :=
  gap n fun t => He l (offset + t) - He (l - 1) (offset + t)

theorem average_score (He : Nat → Nat → α) (offset n l : Nat) :
    average n (fun t => score He l (offset + t)) =
      documentedScore He offset n l + signGap He offset n l := by
  simp only [score]
  rw [average_add, average_abs, average_sub, documentedScore, signGap, add_assoc]
  rfl

/-- Every request's tokens are assigned the documented first argmin over the layers after
the first. -/
def AssignsDocumented (s : AifdState α ρ) (He : Nat → Nat → α) (seqLens : List Nat) : Prop :=
  ∃ ids, selectLayers s true = .ok (some ids) ∧
    ∀ k (hk : k < seqLens.length) best,
      IsFirstMin (documentedScore He (start seqLens k) seqLens[k])
        (region s.candidates.length) best →
      slice (start seqLens k) seqLens[k] ids =
        List.replicate seqLens[k] (candId s.candidates best)

section Ordered

variable [IsStrictOrderedRing α]

/-- The computed choice is the documented one exactly when the documented winner keeps its
lead after every score has grown by its gap. -/
theorem sampleChoice_documented_iff {L T : Nat} (many : 2 ≤ L) {He : Nat → Nat → α}
    {offset n : Nat} (bound : offset + n ≤ T) (positive : 0 < n) {best : Nat}
    (documented : IsFirstMin (documentedScore He offset n) (region L) best) :
    sampleChoice true (scoreMatrix (entropyRows L T He)) offset n = best ↔
      Robust (documentedScore He offset n) (signGap He offset n) (region L) best := by
  rw [sampleChoice_iff many bound positive]
  simp only [average_score]
  exact robust_iff documented

/-- Where no layer's change over its predecessor changes sign within the request, the two
criteria choose alike. -/
theorem sampleChoice_of_sameSign {L T : Nat} (many : 2 ≤ L) {He : Nat → Nat → α} {offset n : Nat}
    (bound : offset + n ≤ T) (positive : 0 < n) {best : Nat}
    (documented : IsFirstMin (documentedScore He offset n) (region L) best)
    (sameSign : ∀ l ∈ region L, (∀ t < n, 0 ≤ He l (offset + t) - He (l - 1) (offset + t)) ∨
      ∀ t < n, He l (offset + t) - He (l - 1) (offset + t) ≤ 0) :
    sampleChoice true (scoreMatrix (entropyRows L T He)) offset n = best := by
  have closed : ∀ l ∈ region L, signGap He offset n l = 0 :=
    fun l member => (gap_eq_zero_iff positive).mpr (sameSign l member)
  apply (sampleChoice_documented_iff many bound positive documented).mpr
  apply robust_of_change_eq documented
  intro l member
  rw [closed l member, closed best documented.mem]

theorem assignsDocumented_iff {s : AifdState α ρ} {T : Nat} {He : Nat → Nat → α}
    {seqLens : List Nat} (many : 2 ≤ s.candidates.length) (distinct : s.candidates.Nodup)
    (stored : StoredEntropy s T He) (sample : s.granularity = .sample)
    (segmented : s.seqLengths = some seqLens) (some_request : seqLens ≠ [])
    (nonempty : ∀ n ∈ seqLens, 0 < n) (total : seqLens.sum = T) :
    AssignsDocumented s He seqLens ↔
      ∀ k (hk : k < seqLens.length) best,
        IsFirstMin (documentedScore He (start seqLens k) seqLens[k])
          (region s.candidates.length) best →
        Robust (documentedScore He (start seqLens k) seqLens[k])
          (signGap He (start seqLens k) seqLens[k]) (region s.candidates.length) best := by
  have filled : s.candidates ≠ [] := List.length_pos_iff.mp (by omega)
  have selected := selectLayers_stored filled stored segmented some_request total true
  rw [sample] at selected
  have request (k : Nat) (hk : k < seqLens.length) (best : Nat)
      (documented : IsFirstMin (documentedScore He (start seqLens k) seqLens[k])
        (region s.candidates.length) best) :
      slice (start seqLens k) seqLens[k] (assignLayers .sample s.candidates true
          (scoreMatrix (entropyRows s.candidates.length T He)) seqLens) =
        List.replicate seqLens[k] (candId s.candidates best) ↔
      Robust (documentedScore He (start seqLens k) seqLens[k])
        (signGap He (start seqLens k) seqLens[k]) (region s.candidates.length) best := by
    have positive := nonempty _ (List.getElem_mem hk)
    have bound : start seqLens k + seqLens[k] ≤ T := total ▸ start_add_length_le hk
    have range : best < s.candidates.length := documented.mem.2
    have rows : scoreMatrix (entropyRows s.candidates.length T He) ≠ [] := by
      rw [← List.length_pos_iff, length_scoreMatrix_entropyRows]
      omega
    have chosen := sampleChoice_lt rows true (start seqLens k) seqLens[k]
    rw [length_scoreMatrix_entropyRows] at chosen
    rw [slice_assignLayers, List.replicate_right_inj positive.ne', candId_inj distinct chosen range,
      sampleChoice_documented_iff many bound positive documented]
  constructor
  · rintro ⟨ids, equal, assigned⟩ k hk best documented
    rw [selected] at equal
    cases equal
    exact (request k hk best documented).mp (assigned k hk best documented)
  · intro robust
    exact ⟨_, selected, fun k hk best documented =>
      (request k hk best documented).mpr (robust k hk best documented)⟩

/-- A layer that moves down at one token and up at the next, on average not at all. -/
def tilt (offset n t : Nat) : α :=
  (if t = offset + 1 then (n : α) else 0) - if t = offset then (n : α) else 0

theorem average_tilt (offset : Nat) {n : Nat} (many : 2 ≤ n) :
    average n (fun t => (tilt offset n (offset + t) : α)) = 0 ∧
      average n (fun t => |(tilt offset n (offset + t) : α)|) = 2 := by
  have nonzero : (n : α) ≠ 0 := Nat.cast_ne_zero.mpr (by omega)
  have shifted (t : Nat) : (tilt offset n (offset + t) : α) =
      (if t = 1 then (n : α) else 0) - if t = 0 then (n : α) else 0 := by
    simp [tilt, Nat.add_left_cancel_iff]
  have sizes (t : Nat) : |(tilt offset n (offset + t) : α)| =
      (if t = 1 then (n : α) else 0) + if t = 0 then (n : α) else 0 := by
    rw [shifted]
    rcases t with _ | _ | t <;> simp
  constructor
  · simp only [shifted]
    rw [average_sub, average_single (by omega), average_single (by omega), sub_self]
  · simp only [sizes]
    rw [average_add, average_single (by omega), average_single (by omega), div_self nonzero]
    norm_num

/-- Entropies on which the second candidate wins by the document, its tilt notwithstanding. -/
def tilted (offset n l t : Nat) : α :=
  match l with
  | 0 => 0
  | 1 => 1
  | 2 => 1 + tilt offset n t
  | _ => 9

theorem requestMean_tilted {offset n : Nat} (many : 2 ≤ n) (l : Nat) :
    requestMean (tilted (α := α) offset n) offset n l =
      match l with
      | 0 => 0
      | 1 | 2 => 1
      | _ => 9 := by
  have positive : 0 < n := by omega
  rcases l with _ | _ | _ | l
  · exact average_const positive 0
  · exact average_const positive 1
  · simp only [requestMean, tilted]
    rw [average_add, average_const positive, (average_tilt offset many).1, add_zero]
  · exact average_const positive 9

theorem documentedScore_tilted (offset : Nat) {n : Nat} (many : 2 ≤ n) (l : Nat) :
    documentedScore (tilted (α := α) offset n) offset n l =
      match l with
      | 0 => 0
      | 1 => 2
      | 2 => 1
      | 3 => 17
      | _ => 9 := by
  rw [documentedScore, requestMean_tilted many, requestMean_tilted many]
  rcases l with _ | _ | _ | _ | l
  · norm_num
  · norm_num
  · norm_num
  · norm_num
  · change (9 : α) + |9 - 9| = 9
    norm_num

theorem signGap_tilted (offset : Nat) {n : Nat} (many : 2 ≤ n) :
    signGap (tilted (α := α) offset n) offset n 1 = 0 ∧
      signGap (tilted (α := α) offset n) offset n 2 = 2 := by
  obtain ⟨level, size⟩ := average_tilt (α := α) offset many
  constructor
  · simp only [signGap, gap, tilted, sub_zero, average_const (show 0 < n by omega)]
    norm_num
  · simp only [signGap, gap, tilted, add_sub_cancel_left, level, size]
    norm_num

/-- The two criteria agree on all entropies only where nothing is left to decide or nothing
is averaged. -/
theorem documented_always_iff {L offset n : Nat} (many : 2 ≤ L) (positive : 0 < n) :
    (∀ (He : Nat → Nat → α) best, IsFirstMin (documentedScore He offset n) (region L) best →
      Robust (documentedScore He offset n) (signGap He offset n) (region L) best) ↔
      L = 2 ∨ n = 1 := by
  constructor
  · intro always
    by_contra generic
    rw [not_or] at generic
    have twoTokens : 2 ≤ n := by omega
    have scores := documentedScore_tilted (α := α) offset twoTokens
    have documented : IsFirstMin (documentedScore (tilted (α := α) offset n) offset n) (region L) 2 := by
      refine ⟨⟨by omega, by omega⟩, fun j hj => ?_, fun j hj less => ?_⟩
      · have := hj.1
        rcases j with _ | _ | _ | _ | j <;> simp only [scores] <;> first | omega | norm_num
      · have := hj.1
        obtain rfl : j = 1 := by omega
        simp only [scores]
        norm_num
    have margin := (always _ 2 documented 1 ⟨le_rfl, by omega⟩).2 (by omega)
    rw [(signGap_tilted offset twoTokens).1, (signGap_tilted offset twoTokens).2] at margin
    simp only [scores] at margin
    norm_num at margin
  · rintro (rfl | rfl) He best documented
    · exact robust_of_change_eq documented fun j hj => by
        rw [region_only le_rfl documented.mem j hj]
    · exact robust_of_change_eq documented fun j _ => by simp only [signGap, gap_one]

end Ordered

/-- A state holding the given entropy rows under ids 1, 2 and so on. -/
def measuredState (L T : Nat) (He : Nat → Nat → ℚ) (seqLens : List Nat) : AifdState ℚ ℚ where
  candidates := (List.range L).map fun l : Nat => (l : Int) + 1
  entropy := (List.range L).foldl
    (fun d (l : Nat) => d.set ((l : Int) + 1) ((List.range T).map (He l))) .empty
  seqLengths := some seqLens

/-- The second layer is flat; the third moves down at one token and up at the next. -/
def signChange (l t : Nat) : ℚ :=
  match l, t with
  | 0, _ => 0
  | 1, _ => 1
  | _, 0 => 0
  | _, _ => 2

theorem signChange_documented : IsFirstMin (documentedScore signChange 0 2) (region 3) 2 := by
  refine ⟨by decide +kernel, fun j hj => ?_, fun j hj less => ?_⟩
  · obtain ⟨low, high⟩ := hj
    interval_cases j <;> decide +kernel
  · obtain ⟨low, high⟩ := hj
    interval_cases j
    decide +kernel

/-- No layer moves both up and down; the third one is the best of the three. -/
def sameSign (l t : Nat) : ℚ :=
  match l, t with
  | 0, _ => 0
  | 1, _ => 2
  | _, 0 => 1
  | _, _ => 2

theorem sameSign_closed {l : Nat} (member : l ∈ region 3) : signGap sameSign 0 2 l = 0 := by
  obtain ⟨low, high⟩ := member
  interval_cases l <;> decide +kernel

theorem assignsDocumented_sameSign : AssignsDocumented (measuredState 3 2 sameSign [2]) sameSign [2] ∧
    selectLayers (measuredState 3 2 sameSign [2]) true = .ok (some [3, 3]) := by
  have stored : StoredEntropy (measuredState 3 2 sameSign [2]) 2 sameSign := by
    unfold StoredEntropy
    decide +kernel
  refine ⟨(assignsDocumented_iff (by decide) (by decide) stored rfl rfl (by decide) (by decide) rfl).mpr
    fun k hk best documented => robust_of_change_eq documented fun j hj => ?_, by decide +kernel⟩
  obtain rfl : k = 0 := Nat.lt_one_iff.mp hk
  exact (sameSign_closed hj).trans (sameSign_closed documented.mem).symm

/-- The third candidate has the lower documented score, the second one is selected. -/
theorem assignsDocumented_signChange :
    ¬ ∀ (s : AifdState ℚ ℚ) (T : Nat) (He : Nat → Nat → ℚ) (seqLens : List Nat),
      2 ≤ s.candidates.length → s.candidates.Nodup → StoredEntropy s T He →
      s.granularity = .sample → s.seqLengths = some seqLens → seqLens ≠ [] →
      (∀ n ∈ seqLens, 0 < n) → seqLens.sum = T → AssignsDocumented s He seqLens := by
  intro claim
  obtain ⟨ids, selected, assigned⟩ := claim (measuredState 3 2 signChange [2]) 2 signChange [2]
    (by decide) (by decide) (by unfold StoredEntropy; decide +kernel) rfl rfl (by decide)
    (by decide) rfl
  have chosen : selectLayers (measuredState 3 2 signChange [2]) true = .ok (some [2, 2]) := by
    decide +kernel
  have documented := assigned 0 (by decide) 2 signChange_documented
  rw [chosen] at selected
  cases selected
  exact absurd documented (by decide)

end DreamAifd.Criterion
