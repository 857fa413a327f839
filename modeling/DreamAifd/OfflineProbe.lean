import DreamAifd.Assignment
import DreamAifd.Criterion
import DreamAifd.Gather

/-! The offline probe, which scores all layers of a model and minimises over a window of
them, against the selection on the hidden states of the same window. The first layer of the
window has a predecessor offline and none online. -/
namespace DreamAifd.OfflineProbe

open Averages FirstMin Segments Gather Criterion

variable {α ρ : Type*} [Field α] [LinearOrder α]

/-- Layer 0 has no predecessor and no score. -/
def scoreLayers (ceMean : List α) : List (Option α) :=
  none :: List.zipWith (fun before now => some (now + |now - before|)) ceMean ceMean.tail

/-- `min(cand, key=lambda l: scores[l])`; `none` where it raises. -/
def bestLayer (scores : List (Option α)) (cand : List Nat) : Option Nat :=
  match cand.mapM fun l => (scores[l]?).join with
  | some values => cand[argmin values]?
  | none => none

/-- The probe writes the per-token scores as the selection does. -/
def scoreMatrix (ceMat : List (List α)) : List (List (WithTop α)) := DreamAifd.scoreMatrix ceMat

def pickPerToken (ceMat : List (List α)) (cand : List Nat) : List Nat :=
  let sc := cand.map fun l => (scoreMatrix ceMat).getD l []
  (List.range (ceMat.headD []).length).map fun t =>
    cand.getD (argmin (sc.map fun row => row.getD t ⊤)) 0

def window (a L : Nat) : List Nat := (List.range L).map (a + ·)

theorem window_getD {a L i : Nat} (bound : i < L) : (window a L).getD i 0 = a + i := by
  simp [window, bound]

section Offline

variable {N a L T : Nat} {ce : Nat → Nat → α}

theorem scoreLayers_get {l : Nat} (low : 1 ≤ l) (high : l < N) :
    ((scoreLayers ((entropyRows N T ce).map mean))[l]?).join = some (documentedScore ce 0 T l) := by
  obtain ⟨l, rfl⟩ := Nat.exists_eq_add_of_le' low
  rw [means_entropyRows]
  simp [scoreLayers, documentedScore, List.getElem?_zipWith, List.getElem?_tail, high,
    show l < N by omega]

theorem bestLayer_iff (start : 1 ≤ a) (layer : 0 < L) (inside : a + L ≤ N) {w : Nat} :
    bestLayer (scoreLayers ((entropyRows N T ce).map mean)) (window a L) = some w ↔
      IsFirstMin (documentedScore ce 0 T) (Set.Ico a (a + L)) w := by
  have values : (window a L).mapM (fun l =>
      ((scoreLayers ((entropyRows N T ce).map mean))[l]?).join) =
      some ((List.range L).map fun i => documentedScore ce 0 T (a + i)) := by
    rw [mapM_some (g := documentedScore ce 0 T), window, List.map_map]
    · rfl
    · simp only [window, List.forall_mem_map, List.mem_range]
      exact fun i bound => scoreLayers_get (by omega) (by omega)
  have bound : argmin ((List.range L).map fun i => documentedScore ce 0 T (a + i)) < L := by
    simpa using argmin_lt_length ((List.range L).map fun i => documentedScore ce 0 T (a + i))
      (by simp; omega)
  rw [bestLayer, values, ← argmin_window_eq_iff layer]
  simp [window, bound]

theorem scoreMatrix_get {l t : Nat} (low : 1 ≤ l) (high : l < N) (bound : t < T) :
    ((scoreMatrix (entropyRows N T ce)).getD l []).getD t ⊤ = ((score ce l t : α) : WithTop α) := by
  obtain ⟨l, rfl⟩ := Nat.exists_eq_add_of_le' low
  obtain ⟨N, rfl⟩ := Nat.exists_eq_add_of_le' (show 1 ≤ N by omega)
  have inner : l < N := by omega
  simp [scoreMatrix, scoreMatrix_entropyRows, inner, bound]

/-- The layer picked at every position minimises the score over the whole window. -/
theorem pickPerToken_get (ce : Nat → Nat → α) (T : Nat) {N a L : Nat} (start : 1 ≤ a)
    (layer : 0 < L) (inside : a + L ≤ N) :
    ∃ pick : Nat → Nat, pickPerToken (entropyRows N T ce) (window a L) = (List.range T).map pick ∧
      ∀ t < T, IsFirstMin (fun l => score ce l t) (Set.Ico a (a + L)) (pick t) := by
  have width : ((entropyRows N T ce).headD []).length = T := by
    obtain ⟨N, rfl⟩ := Nat.exists_eq_add_of_le' (show 1 ≤ N by omega)
    simp [entropyRows, List.range_succ_eq_map]
  rw [pickPerToken, width]
  refine ⟨_, rfl, fun t bound => ?_⟩
  have column : ((window a L).map fun l => (scoreMatrix (entropyRows N T ce)).getD l []).map
      (fun row => row.getD t ⊤) =
      ((List.range L).map fun i => score ce (a + i) t).map ((↑) : α → WithTop α) := by
    rw [window, List.map_map, List.map_map, List.map_map]
    apply List.map_congr_left
    intro i member
    have := List.mem_range.mp member
    exact scoreMatrix_get (show 1 ≤ a + i by omega) (show a + i < N by omega) bound
  have chosen : argmin ((List.range L).map fun i => score ce (a + i) t) < L := by
    simpa using argmin_lt_length ((List.range L).map fun i => score ce (a + i) t) (by simp; omega)
  rw [column, argmin_map_strictMono WithTop.coe_strictMono, window_getD chosen]
  exact (argmin_window_eq_iff layer).mp rfl

end Offline

section Online

variable {a L T : Nat} {ce : Nat → Nat → α}

def auxIds (a L : Nat) : List Int := (window a L).map fun l : Nat => (l : Int) + 1

theorem candId_auxIds {i : Nat} (bound : i < L) : candId (auxIds a L) i = ((a + i : Nat) : Int) + 1 := by
  simp [candId, auxIds, window, bound]

theorem region_shift : (a + ·) '' region L = Set.Ioo a (a + L) := by
  ext l
  constructor
  · rintro ⟨i, ⟨low, high⟩, rfl⟩
    exact ⟨show a < a + i by omega, show a + i < a + L by omega⟩
  · rintro ⟨low, high⟩
    exact ⟨l - a, ⟨by omega, by omega⟩, show a + (l - a) = l by omega⟩

/-- Inside the window a layer scores online what it scores in the full model. -/
theorem score_shift {i : Nat} (inside : i ∈ region L) (t : Nat) :
    score (fun i => ce (a + i)) i t = score ce (a + i) t := by
  have low : 1 ≤ i := inside.1
  rw [score, score, Nat.add_sub_assoc low]

theorem isFirstMin_shift {β : Type*} [LinearOrder β] {f g : Nat → β} (same : ∀ i ∈ region L, f i = g (a + i))
    {i : Nat} : IsFirstMin f (region L) i ↔ IsFirstMin g (Set.Ioo a (a + L)) (a + i) := by
  have mono : StrictMono (a + ·) := fun _ _ less => Nat.add_lt_add_left less a
  rw [← region_shift, isFirstMin_image mono]
  exact isFirstMin_congr same

/-- Online choice of the one request, in layer numbers of the model. -/
theorem assign_sample (ce : Nat → Nat → α) (a : Nat) {L T : Nat} (many : 2 ≤ L)
    (positive : 0 < T) : ∃ w : Nat,
    assignLayers .sample (auxIds a L) true
        (DreamAifd.scoreMatrix (entropyRows L T fun i => ce (a + i))) [T] =
      List.replicate T ((w : Int) + 1) ∧
    IsFirstMin (fun l => average T fun t => score ce l t) (Set.Ioo a (a + L)) w := by
  set i := sampleChoice true (DreamAifd.scoreMatrix (entropyRows L T fun i => ce (a + i))) 0 T with hi
  have chosen := (sampleChoice_iff many (Nat.zero_add T).le positive).mp hi.symm
  refine ⟨a + i, ?_, (isFirstMin_shift fun j member => ?_).mp chosen⟩
  · simp only [assignLayers, forSegments, List.append_nil, ← hi, candId_auxIds chosen.mem.2]
  · simp only [Nat.zero_add, score_shift member]

/-- Online choice of every token. -/
theorem assign_token (ce : Nat → Nat → α) (a T : Nat) {L : Nat} (many : 2 ≤ L) : ∃ w : Nat → Nat,
    assignLayers .token (auxIds a L) true
        (DreamAifd.scoreMatrix (entropyRows L T fun i => ce (a + i))) [T] =
      (List.range T).map (fun t => (w t : Int) + 1) ∧
    ∀ t < T, IsFirstMin (fun l => score ce l t) (Set.Ioo a (a + L)) (w t) := by
  have chosen (t : Nat) (bound : t < T) :
      IsFirstMin (fun l => score (fun i => ce (a + i)) l t) (region L)
        (tokenChoice (DreamAifd.scoreMatrix (entropyRows L T fun i => ce (a + i))) t) :=
    (tokenChoice_iff many bound).mp rfl
  refine ⟨fun t => a + tokenChoice (DreamAifd.scoreMatrix (entropyRows L T fun i => ce (a + i))) t,
    ?_, fun t bound => (isFirstMin_shift fun j member => score_shift member t).mp (chosen t bound)⟩
  simp only [assignLayers, List.sum_singleton]
  exact List.map_congr_left fun t member => candId_auxIds (chosen t (List.mem_range.mp member)).mem.2

/-- A window of one layer leaves nothing to choose. -/
theorem assign_single (granularity : Granularity) :
    assignLayers granularity (auxIds a 1) true
        (DreamAifd.scoreMatrix (entropyRows 1 T fun i => ce (a + i))) [T] =
      List.replicate T ((a : Int) + 1) := by
  have first : candId (auxIds a 1) 0 = (a : Int) + 1 := candId_auxIds (by omega)
  cases granularity with
  | sample => simp only [assignLayers, forSegments, List.append_nil, sampleChoice_single, first]
  | token => simp [assignLayers, tokenChoice_single, first]

theorem insert_window (layer : 0 < L) : insert a (Set.Ioo a (a + L)) = Set.Ico a (a + L) :=
  Set.Ioo_insert_left (by omega)

end Online

/-- Online and offline assign the same layer, an auxiliary id being the layer number plus one. -/
def AgreesOffline (s : AifdState α ρ) (N a L T : Nat) (ce : Nat → Nat → α) : Prop :=
  match s.granularity with
  | .sample => ∃ best,
      bestLayer (scoreLayers ((entropyRows N T ce).map mean)) (window a L) = some best ∧
      selectLayers s true = .ok (some (List.replicate T ((best : Int) + 1)))
  | .token => selectLayers s true =
      .ok (some ((pickPerToken (entropyRows N T ce) (window a L)).map fun l : Nat => (l : Int) + 1))

/-- The layer before the window never counts online, so the first layer of the window is
never chosen there. -/
def OfflineConditions (granularity : Granularity) (a L T : Nat) (ce : Nat → Nat → α) : Prop :=
  match granularity with
  | .sample => ∃ best, IsFirstMin (documentedScore ce 0 T) (Set.Ico a (a + L)) best ∧ a < best ∧
      Robust (documentedScore ce 0 T) (signGap ce 0 T) (Set.Ioo a (a + L)) best
  | .token => ∀ t < T, ∃ l ∈ Set.Ioo a (a + L), score ce l t < score ce a t

section Agreement

variable {N a L T : Nat}

/-- Both minimise over the window, the probe with its first layer and the selection without. -/
theorem sample_agrees_iff [IsStrictOrderedRing α] (ce : Nat → Nat → α) (start : 1 ≤ a) (many : 2 ≤ L)
    (inside : a + L ≤ N) (positive : 0 < T) :
    (∃ best, bestLayer (scoreLayers ((entropyRows N T ce).map mean)) (window a L) = some best ∧
        assignLayers .sample (auxIds a L) true
            (DreamAifd.scoreMatrix (entropyRows L T fun i => ce (a + i))) [T] =
          List.replicate T ((best : Int) + 1)) ↔
      OfflineConditions .sample a L T ce := by
  have layer : 0 < L := by omega
  obtain ⟨w, assigned, chosen⟩ := assign_sample ce a many positive
  have below : ∀ l ∈ Set.Ioo a (a + L), a < l := fun l member => member.1
  have scores (l : Nat) : average T (fun t => score ce l t) =
      documentedScore ce 0 T l + signGap ce 0 T l := by
    simpa only [Nat.zero_add] using average_score ce 0 T l
  simp only [scores] at chosen
  rw [assigned]
  constructor
  · rintro ⟨best, offline, same⟩
    rw [bestLayer_iff start layer inside, ← insert_window layer] at offline
    obtain rfl : w = best := by
      simpa [List.replicate_right_inj positive.ne'] using same
    have interior := (isFirstMin_insert_least below chosen.mem).mp offline
    rw [insert_window layer] at offline
    exact ⟨w, offline, chosen.mem.1, (robust_iff interior.1).mp chosen⟩
  · rintro ⟨best, offline, low, robust⟩
    have member : best ∈ Set.Ioo a (a + L) := ⟨low, offline.mem.2⟩
    have offline' := offline
    rw [← insert_window layer] at offline'
    have interior := (isFirstMin_insert_least below member).mp offline'
    have same := chosen.unique ((robust_iff interior.1).mpr robust)
    exact ⟨best, (bestLayer_iff start layer inside).mpr offline, by rw [same]⟩

theorem token_agrees_iff (ce : Nat → Nat → α) (start : 1 ≤ a) (many : 2 ≤ L) (inside : a + L ≤ N) :
    assignLayers .token (auxIds a L) true (DreamAifd.scoreMatrix (entropyRows L T fun i => ce (a + i))) [T] =
        (pickPerToken (entropyRows N T ce) (window a L)).map (fun l : Nat => (l : Int) + 1) ↔
      OfflineConditions .token a L T ce := by
  have layer : 0 < L := by omega
  obtain ⟨w, assigned, chosen⟩ := assign_token ce a T many
  obtain ⟨pick, picked, lowest⟩ := pickPerToken_get ce T start layer inside
  have below : ∀ l ∈ Set.Ioo a (a + L), a < l := fun l member => member.1
  have agree (t : Nat) (bound : t < T) :
      w t = pick t ↔ ∃ l ∈ Set.Ioo a (a + L), score ce l t < score ce a t := by
    have offline := lowest t bound
    rw [← insert_window layer] at offline
    exact isFirstMin_insert_eq_iff below (chosen t bound) offline
  rw [assigned, picked, List.map_map]
  constructor
  · intro same t bound
    have entry := congrArg (·[t]?) same
    simp only [List.getElem?_map, List.getElem?_range bound, Option.map_some, Option.some.injEq,
      Function.comp_apply] at entry
    exact (agree t bound).mp (by omega)
  · intro beaten
    apply List.map_congr_left
    intro t member
    have bound := List.mem_range.mp member
    rw [Function.comp_apply, (agree t bound).mpr (beaten t bound)]

/-- With one layer there is nothing to choose on either side. -/
theorem agreesOffline_single {s : AifdState α ρ} {ce : Nat → Nat → α} (start : 1 ≤ a) (inside : a + 1 ≤ N)
    (selected : selectLayers s true = .ok (some (List.replicate T ((a : Int) + 1)))) :
    AgreesOffline s N a 1 T ce := by
  obtain ⟨pick, picked, lowest⟩ := pickPerToken_get ce T start Nat.one_pos inside
  have only {w : Nat} (member : w ∈ Set.Ico a (a + 1)) : w = a := by
    obtain ⟨low, high⟩ := member
    omega
  unfold AgreesOffline
  cases s.granularity with
  | sample =>
    exact ⟨a, (bestLayer_iff start Nat.one_pos inside).mpr
      (isFirstMin_of_only ⟨le_rfl, by omega⟩ fun j hj => only hj), selected⟩
  | token =>
    rw [selected, picked, List.map_map]
    refine congrArg _ (congrArg _ (List.eq_replicate_iff.mpr ⟨by simp, ?_⟩).symm)
    simp only [List.forall_mem_map, List.mem_range, Function.comp_apply]
    exact fun t bound => by rw [only (lowest t bound).mem]

end Agreement

theorem agreesOffline_iff [IsStrictOrderedRing α] {s : AifdState α ρ} {N a L T : Nat}
    {ce : Nat → Nat → α} (start : 1 ≤ a) (layer : 0 < L) (inside : a + L ≤ N) (positive : 0 < T)
    (candidates : s.candidates = auxIds a L) (stored : StoredEntropy s T fun i => ce (a + i))
    (segmented : s.seqLengths = some [T]) :
    AgreesOffline s N a L T ce ↔ L = 1 ∨ OfflineConditions s.granularity a L T ce := by
  have size : s.candidates.length = L := by simp [candidates, auxIds, window]
  have filled : s.candidates ≠ [] := List.length_pos_iff.mp (by omega)
  have selected := selectLayers_stored filled stored segmented (by simp) (by simp) true
  rw [size, candidates] at selected
  by_cases single : L = 1
  · subst single
    rw [assign_single] at selected
    exact iff_of_true (agreesOffline_single start inside selected) (.inl rfl)
  · have many : 2 ≤ L := by omega
    rw [or_iff_right single]
    unfold AgreesOffline
    cases granularity : s.granularity with
    | sample =>
      rw [granularity] at selected
      simp only [selected, Except.ok.injEq, Option.some.injEq]
      exact sample_agrees_iff ce start many inside positive
    | token =>
      rw [granularity] at selected
      simp only [selected, Except.ok.injEq, Option.some.injEq]
      exact token_agrees_iff ce start many inside

def probeState (granularity : Granularity) (a L T : Nat) (ce : Nat → Nat → ℚ) :
    AifdState ℚ ℚ where
  candidates := auxIds a L
  granularity := granularity
  entropy := (List.range L).foldl
    (fun d (i : Nat) => d.set (((a + i : Nat) : Int) + 1) ((List.range T).map (ce (a + i)))) .empty
  seqLengths := some [T]

/-- Attention sharpens from layer to layer. -/
def falling (l _t : Nat) : ℚ := 5 - l

/-- Attention spreads from layer to layer. -/
def rising (l _t : Nat) : ℚ := l

theorem agreesOffline_falling : AgreesOffline (probeState .token 1 3 2 falling) 5 1 3 2 falling :=
  (agreesOffline_iff (by decide) (by decide) (by decide) (by decide) rfl
    (show StoredEntropy (probeState .token 1 3 2 falling) 2 fun i => falling (1 + i) by
      unfold StoredEntropy; decide +kernel) rfl).mpr
    (.inr fun t _ => ⟨2, by decide, by norm_num [score, falling]⟩)

/-- Offline layer 1 is best, online its id 2 is out of reach. -/
theorem agreesOffline_rising :
    ¬ ∀ (s : AifdState ℚ ℚ) (N a L T : Nat) (ce : Nat → Nat → ℚ), 1 ≤ a → 0 < L → a + L ≤ N →
      0 < T → s.candidates = auxIds a L → StoredEntropy s T (fun i => ce (a + i)) →
      s.seqLengths = some [T] → AgreesOffline s N a L T ce := by
  intro claim
  obtain ⟨best, offline, online⟩ := claim (probeState .sample 1 3 2 rising) 5 1 3 2 rising
    (by decide) (by decide) (by decide) (by decide) rfl
    (by unfold StoredEntropy; decide +kernel) rfl
  have probed : bestLayer (scoreLayers ((entropyRows 5 2 rising).map mean)) (window 1 3) = some 1 := by
    decide +kernel
  have chosen : selectLayers (probeState .sample 1 3 2 rising) true = .ok (some [3, 3]) := by
    decide +kernel
  rw [probed] at offline
  cases offline
  rw [chosen] at online
  exact absurd online (by decide)

end DreamAifd.OfflineProbe
