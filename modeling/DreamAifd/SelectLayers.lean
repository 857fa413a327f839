import DreamAifd.AifdState
import DreamAifd.Averages
import DreamAifd.FirstMin
import DreamAifd.Segments

/-! Selection of one candidate layer for every token, and the gathering of the selected
layers' rows. Candidate `l` scores `He[l] + |He[l] - He[l-1]|`; the first candidate has no
predecessor and scores infinity. -/
namespace DreamAifd

open Averages FirstMin Segments

variable {α ρ : Type*}

section Stack

def candId (candidates : List Int) (index : Nat) : Int := candidates.getD index 0

theorem candId_mem {candidates : List Int} {index : Nat} (bound : index < candidates.length) :
    candId candidates index ∈ candidates := by
  rw [candId, List.getD_eq_getElem _ _ bound]
  exact List.getElem_mem bound

theorem candId_inj {candidates : List Int} (distinct : candidates.Nodup) {i j : Nat}
    (hi : i < candidates.length) (hj : j < candidates.length) :
    candId candidates i = candId candidates j ↔ i = j := by
  rw [candId, candId, List.getD_eq_getElem _ _ hi, List.getD_eq_getElem _ _ hj]
  exact distinct.getElem_inj_iff

def fetchEntropy (s : AifdState α ρ) (auxId : Int) : Except AifdError (List α) :=
  match s.entropy.get? auxId with
  | some row => .ok row
  | none => .error (.missingEntropy auxId)

def stackEntropy (s : AifdState α ρ) : Except AifdError (List (List α)) := do
  let rows ← s.candidates.mapM (fetchEntropy s)
  match rows with
  | [] => .error .noCandidates
  | first :: rest =>
    if ∀ row ∈ rest, row.length = first.length then .ok rows else .error .stackSizes

def entropyRows (L T : Nat) (He : Nat → Nat → α) : List (List α) :=
  (List.range L).map fun l => (List.range T).map (He l)

/-- Every candidate of the state holds an entropy row of `T` tokens. -/
def StoredEntropy (s : AifdState α ρ) (T : Nat) (He : Nat → Nat → α) : Prop :=
  ∀ l (bound : l < s.candidates.length),
    s.entropy.get? s.candidates[l] = some ((List.range T).map (He l))

theorem mapM_fetchEntropy {s : AifdState α ρ} {T : Nat} {He : Nat → Nat → α} {ids : List Int}
    (stored : ∀ l (bound : l < ids.length),
      s.entropy.get? ids[l] = some ((List.range T).map (He l))) :
    ids.mapM (fetchEntropy s) = .ok (entropyRows ids.length T He) := by
  induction ids generalizing He with
  | nil => rfl
  | cons c rest ih =>
    have head : fetchEntropy s c = .ok ((List.range T).map (He 0)) := by
      rw [fetchEntropy, show s.entropy.get? c = _ from stored 0 (by simp)]
    have tail := @ih (fun l => He (l + 1)) fun l bound => stored (l + 1) (by simpa using bound)
    have rows : entropyRows (c :: rest).length T He =
        (List.range T).map (He 0) :: entropyRows rest.length T fun l => He (l + 1) := by
      simp [entropyRows, List.range_succ_eq_map]
    rw [List.mapM_cons, head, tail, rows]
    rfl

theorem stackEntropy_stored {s : AifdState α ρ} {T : Nat} {He : Nat → Nat → α}
    (nonempty : s.candidates ≠ []) (stored : StoredEntropy s T He) :
    stackEntropy s = .ok (entropyRows s.candidates.length T He) := by
  have positive : s.candidates.length ≠ 0 := by simpa using nonempty
  obtain ⟨L, size⟩ := Nat.exists_eq_succ_of_ne_zero positive
  rw [stackEntropy, mapM_fetchEntropy stored, size]
  simp [entropyRows, List.range_succ_eq_map, bind, Except.bind]

/-- One candidate without an entropy makes the lookup raise. -/
theorem stackEntropy_missing {s : AifdState α ρ}
    (missing : ∃ c ∈ s.candidates, s.entropy.get? c = none) :
    ∃ c ∈ s.candidates, s.entropy.get? c = none ∧ stackEntropy s = .error (.missingEntropy c) := by
  have lookup (ids : List Int) (missing : ∃ c ∈ ids, s.entropy.get? c = none) :
      ∃ c ∈ ids, s.entropy.get? c = none ∧
        ids.mapM (fetchEntropy s) = .error (.missingEntropy c) := by
    induction ids with
    | nil => simp at missing
    | cons c rest ih =>
      cases found : s.entropy.get? c with
      | none =>
        exact ⟨c, by simp, found, by rw [List.mapM_cons, fetchEntropy, found]; rfl⟩
      | some row =>
        obtain ⟨d, member, absent, raised⟩ := ih (by
          obtain ⟨d, member, absent⟩ := missing
          rcases List.mem_cons.mp member with rfl | member
          · rw [found] at absent; contradiction
          · exact ⟨d, member, absent⟩)
        refine ⟨d, by simp [member], absent, ?_⟩
        rw [List.mapM_cons, fetchEntropy, found, raised]
        rfl
  obtain ⟨c, member, absent, raised⟩ := lookup s.candidates missing
  exact ⟨c, member, absent, by rw [stackEntropy, raised]; rfl⟩

end Stack

section TokenChoice

variable [LinearOrder α]

def tokenChoice (scores : List (List (WithTop α))) (t : Nat) : Nat :=
  argmin (scores.map fun row => row.getD t ⊤)

theorem tokenChoice_lt {scores : List (List (WithTop α))} (nonempty : scores ≠ []) (t : Nat) :
    tokenChoice scores t < scores.length := by
  simpa [tokenChoice] using argmin_lt_length (scores.map fun row => row.getD t ⊤) (by simpa)

end TokenChoice

section SegmentMean

variable [Field α]

def segmentMean (keepBos : Bool) (offset n : Nat) (row : List (WithTop α)) : WithTop α :=
  let seg := slice offset n row
  meanTop (if ¬ keepBos ∧ 1 < n then seg.drop 1 else seg)

/-- With the first position kept, a segment mean averages the whole segment. -/
theorem segmentMean_coe {T offset n : Nat} (bound : offset + n ≤ T) (f : Nat → α) :
    segmentMean true offset n ((List.range T).map fun t => (f t : WithTop α)) =
      (average n fun t => f (offset + t) : α) := by
  have entries : (List.range n).map (fun t => (f (offset + t) : WithTop α)) =
      ((List.range n).map fun t => f (offset + t)).map (↑) := by rw [List.map_map]; rfl
  simp only [segmentMean, not_true_eq_false, false_and, if_false]
  rw [slice_map_range _ bound, entries, meanTop_coe, mean_range]

theorem segmentMean_top {T offset n : Nat} (bound : offset + n ≤ T) (positive : 0 < n) :
    segmentMean true offset n ((List.range T).map fun _ => (⊤ : WithTop α)) = ⊤ := by
  simp only [segmentMean, not_true_eq_false, false_and, if_false]
  rw [slice_map_range _ bound]
  exact meanTop_top _ (by simp; omega)

theorem segmentMean_one {row : List (WithTop α)} {t : Nat} (bound : t < row.length) :
    segmentMean true t 1 row = row.getD t ⊤ := by
  have window : slice t 1 row = [row[t]] := by
    rw [slice, List.drop_eq_getElem_cons bound, List.take_succ_cons, List.take_zero]
  have self : WithTop.map (· / (1 : α)) row[t] = row[t] := by
    cases row[t] <;> simp
  simp only [segmentMean, not_true_eq_false, false_and, if_false, window, meanTop, List.sum_singleton,
    List.length_singleton, Nat.cast_one]
  rw [List.getD_eq_getElem _ _ bound]
  exact self

end SegmentMean

section Select

variable [Field α] [LinearOrder α]

def scoreMatrix : List (List α) → List (List (WithTop α))
  | [] => []
  | first :: rest =>
    first.map (fun _ => ⊤) ::
      List.zipWith (List.zipWith fun before now => ((now + |now - before| : α) : WithTop α))
        (first :: rest) rest

def sampleChoice (keepBos : Bool) (scores : List (List (WithTop α))) (offset n : Nat) : Nat :=
  argmin (scores.map (segmentMean keepBos offset n))

/-- Layer ids of the tokens of all segments, in either granularity. -/
def assignLayers (granularity : Granularity) (candidates : List Int) (keepBos : Bool)
    (scores : List (List (WithTop α))) (seqLens : List Nat) : List Int :=
  match granularity with
  | .token => (List.range seqLens.sum).map fun t => candId candidates (tokenChoice scores t)
  | .sample => forSegments
      (fun offset n => List.replicate n (candId candidates (sampleChoice keepBos scores offset n)))
      0 seqLens

/-- The layer id of every token; `none` where segmentation and entropies do not fit. -/
def selectLayers (s : AifdState α ρ) (keepBos : Bool) : Except AifdError (Option (List Int)) :=
  match s.seqLengths with
  | none | some [] => .ok none
  | some seqLens =>
    let total := seqLens.sum
    match stackEntropy s with
    | .error e => .error e
    | .ok ent =>
      if (ent.headD []).length ≠ total then .ok none
      else
        .ok (some (assignLayers s.granularity s.candidates keepBos (scoreMatrix ent) seqLens))

def score (He : Nat → Nat → α) (l t : Nat) : α := He l t + |He l t - He (l - 1) t|

/-- Candidate positions open to selection: all but the first. -/
def region (L : Nat) : Set Nat := Set.Ico 1 L

instance (L l : Nat) : Decidable (l ∈ region L) := inferInstanceAs (Decidable (1 ≤ l ∧ l < L))

theorem region_only {L : Nat} (few : L ≤ 2) {i : Nat} (member : i ∈ region L) :
    ∀ j ∈ region L, j = i := by
  intro j hj
  have := hj.1
  have := hj.2
  have := member.1
  have := member.2
  omega

theorem scoreMatrix_entropyRows (L T : Nat) (He : Nat → Nat → α) :
    scoreMatrix (entropyRows (L + 1) T He) =
      (List.range T).map (fun _ => (⊤ : WithTop α)) ::
        (List.range L).map fun l => (List.range T).map fun t => ((score He (l + 1) t : α) : WithTop α) := by
  have rows : entropyRows (L + 1) T He = (List.range T).map (He 0) ::
      (List.range L).map fun l => (List.range T).map (He (l + 1)) := by
    simp [entropyRows, List.range_succ_eq_map]
  rw [rows, scoreMatrix, List.map_map]
  refine congrArg₂ _ rfl (List.ext_getElem (by simp) fun l bound _ => ?_)
  have start : l < L := by simpa using bound
  have listed : l < ((List.range T).map (He 0) ::
      (List.range L).map fun l => (List.range T).map (He (l + 1))).length := by
    simp only [List.length_cons, List.length_map, List.length_range]
    omega
  have before : ((List.range T).map (He 0) ::
      (List.range L).map fun l => (List.range T).map (He (l + 1)))[l] = (List.range T).map (He l) := by
    cases l <;> simp
  rw [List.getElem_zipWith, before]
  apply List.ext_getElem <;> simp [score]

theorem tokenChoice_iff {L T : Nat} (many : 2 ≤ L) {He : Nat → Nat → α} {t : Nat} (bound : t < T)
    {i : Nat} : tokenChoice (scoreMatrix (entropyRows L T He)) t = i ↔
      IsFirstMin (fun l => score He l t) (region L) i := by
  obtain ⟨L, rfl⟩ := Nat.exists_eq_add_of_le' (show 1 ≤ L by omega)
  rw [region, ← argmin_top_range_eq_iff many, tokenChoice, scoreMatrix_entropyRows, List.map_cons, List.map_map]
  have column (f : Nat → WithTop α) : ((List.range T).map f).getD t ⊤ = f t := by
    simp [List.getD_eq_getElem?_getD, bound]
  simp only [column, Function.comp_def, Nat.add_sub_cancel]

theorem sampleChoice_iff {L T : Nat} (many : 2 ≤ L) {He : Nat → Nat → α} {offset n : Nat}
    (bound : offset + n ≤ T) (positive : 0 < n) {i : Nat} :
    sampleChoice true (scoreMatrix (entropyRows L T He)) offset n = i ↔
      IsFirstMin (fun l => average n fun t => score He l (offset + t)) (region L) i := by
  obtain ⟨L, rfl⟩ := Nat.exists_eq_add_of_le' (show 1 ≤ L by omega)
  rw [region, ← argmin_top_range_eq_iff many, sampleChoice, scoreMatrix_entropyRows, List.map_cons, List.map_map,
    segmentMean_top bound positive]
  simp only [Function.comp_def, segmentMean_coe bound, Nat.add_sub_cancel]

/-- A single candidate is always the choice. -/
theorem sampleChoice_single {T : Nat} (He : Nat → Nat → α) (keepBos : Bool) (offset n : Nat) :
    sampleChoice keepBos (scoreMatrix (entropyRows 1 T He)) offset n = 0 := by
  simp [sampleChoice, scoreMatrix_entropyRows, argmin]

theorem tokenChoice_single {T : Nat} (He : Nat → Nat → α) (t : Nat) :
    tokenChoice (scoreMatrix (entropyRows 1 T He)) t = 0 := by
  simp [tokenChoice, scoreMatrix_entropyRows, argmin]

@[simp] theorem length_scoreMatrix_entropyRows (L T : Nat) (He : Nat → Nat → α) :
    (scoreMatrix (entropyRows L T He)).length = L := by
  cases L with
  | zero => rfl
  | succ L => simp [scoreMatrix_entropyRows]

theorem sampleChoice_lt {scores : List (List (WithTop α))} (nonempty : scores ≠ [])
    (keepBos : Bool) (offset n : Nat) : sampleChoice keepBos scores offset n < scores.length := by
  simpa [sampleChoice] using argmin_lt_length (scores.map (segmentMean keepBos offset n)) (by simpa)

/-- Only candidates are ever assigned. -/
theorem assignLayers_mem {candidates : List Int} {scores : List (List (WithTop α))}
    (nonempty : candidates ≠ []) (size : scores.length = candidates.length)
    (granularity : Granularity) (keepBos : Bool) (seqLens : List Nat) :
    ∀ c ∈ assignLayers granularity candidates keepBos scores seqLens, c ∈ candidates := by
  have filled : scores ≠ [] := List.length_pos_iff.mp (size ▸ List.length_pos_iff.mpr nonempty)
  cases granularity with
  | token =>
    simp only [assignLayers, List.forall_mem_map]
    exact fun t _ => candId_mem (size ▸ tokenChoice_lt filled t)
  | sample =>
    rw [assignLayers]
    generalize 0 = offset
    induction seqLens generalizing offset with
    | nil => simp [forSegments]
    | cons n seqLens ih =>
      intro c member
      rcases List.mem_append.mp member with first | later
      · rw [List.eq_of_mem_replicate first]
        exact candId_mem (size ▸ sampleChoice_lt filled keepBos offset n)
      · exact ih _ c later

theorem length_assignLayers (granularity : Granularity) (candidates : List Int) (keepBos : Bool)
    (scores : List (List (WithTop α))) (seqLens : List Nat) :
    (assignLayers granularity candidates keepBos scores seqLens).length = seqLens.sum := by
  cases granularity with
  | token => simp [assignLayers]
  | sample => exact length_forSegments (fun _ _ => List.length_replicate ..) 0 seqLens

/-- In sample granularity one layer serves a whole segment. -/
theorem slice_assignLayers (candidates : List Int) (keepBos : Bool)
    (scores : List (List (WithTop α))) (seqLens : List Nat) (k : Nat) (hk : k < seqLens.length) :
    slice (start seqLens k) seqLens[k] (assignLayers .sample candidates keepBos scores seqLens) =
      List.replicate seqLens[k]
        (candId candidates (sampleChoice keepBos scores (start seqLens k) seqLens[k])) := by
  have window := slice_forSegments (f := fun offset n =>
      List.replicate n (candId candidates (sampleChoice keepBos scores offset n)))
    (fun _ _ => List.length_replicate ..) 0 seqLens k hk
  rw [Nat.zero_add] at window
  exact window

theorem selectLayers_stored {s : AifdState α ρ} {T : Nat} {He : Nat → Nat → α} {seqLens : List Nat}
    (nonempty : s.candidates ≠ []) (stored : StoredEntropy s T He)
    (segmented : s.seqLengths = some seqLens) (some_segment : seqLens ≠ [])
    (total : seqLens.sum = T) (keepBos : Bool) :
    selectLayers s keepBos = .ok (some (assignLayers s.granularity s.candidates keepBos
      (scoreMatrix (entropyRows s.candidates.length T He)) seqLens)) := by
  have positive : s.candidates.length ≠ 0 := by simpa using nonempty
  obtain ⟨L, size⟩ := Nat.exists_eq_succ_of_ne_zero positive
  obtain ⟨n, rest, rfl⟩ := List.exists_cons_of_ne_nil some_segment
  have width : ((entropyRows s.candidates.length T He).headD []).length = (n :: rest).sum := by
    simp [size, entropyRows, List.range_succ_eq_map, total]
  simp only [selectLayers, segmented, stackEntropy_stored nonempty stored, width, ne_eq,
    not_true_eq_false, if_false]

theorem selectLayers_missing {s : AifdState α ρ} {seqLens : List Nat}
    (segmented : s.seqLengths = some seqLens) (some_segment : seqLens ≠ [])
    (missing : ∃ c ∈ s.candidates, s.entropy.get? c = none) (keepBos : Bool) :
    ∃ c ∈ s.candidates, s.entropy.get? c = none ∧
      selectLayers s keepBos = .error (.missingEntropy c) := by
  obtain ⟨c, member, absent, raised⟩ := stackEntropy_missing missing
  obtain ⟨n, rest, rfl⟩ := List.exists_cons_of_ne_nil some_segment
  exact ⟨c, member, absent, by simp only [selectLayers, segmented, raised]⟩

end Select

section Gather

/-- Broadcast a leading dimension to `n`. -/
def expandRows (n : Nat) (xs : List ρ) : Option (List ρ) :=
  if xs.length = n then some xs
  else
    match xs with
    | [x] => some (List.replicate n x)
    | _ => none

/-- `torch.where` on rows, with the broadcasting of the leading dimension. -/
def whereRows (cond : List Bool) (new old : List ρ) : Except AifdError (List ρ) :=
  let n := if cond.length ≠ 1 then cond.length
    else if new.length ≠ 1 then new.length else old.length
  match expandRows n cond, expandRows n new, expandRows n old with
  | some cond, some new, some old =>
    .ok (List.zipWith (fun chosen (pair : ρ × ρ) => if chosen then pair.1 else pair.2)
      cond (List.zip new old))
  | _, _, _ => .error .whereSizes

def fetchHidden (s : AifdState α ρ) (auxId : Int) : Except AifdError (List ρ) :=
  match s.hidden.get? auxId with
  | some rows => .ok rows
  | none => .error (.missingHidden auxId)

/-- Starts from the first candidate's rows and overwrites where another one was chosen. -/
def gatherPerRequest (s : AifdState α ρ) (perTokenLayer : List Int) :
    Except AifdError (List ρ) :=
  match s.candidates with
  | [] => .error .noCandidates
  | first :: rest => do
    let base ← fetchHidden s first
    let out ← rest.foldlM (fun out auxId => do
      let rows ← fetchHidden s auxId
      whereRows (perTokenLayer.map (· == auxId)) rows out) base
    if out.length = perTokenLayer.length then .ok out else .error .gatherRows

theorem whereRows_range (T : Nat) (cond : Nat → Bool) (new old : Nat → ρ) :
    whereRows ((List.range T).map cond) ((List.range T).map new) ((List.range T).map old) =
      .ok ((List.range T).map fun t => if cond t then new t else old t) := by
  have size : (if T ≠ 1 then T else if T ≠ 1 then T else T) = T := by simp
  simp only [whereRows, List.length_map, List.length_range, size, expandRows, if_true,
    Except.ok.injEq]
  apply List.ext_getElem <;> simp

def StoredHidden (s : AifdState α ρ) (T : Nat) (row : Int → Nat → ρ) : Prop :=
  ∀ c ∈ s.candidates, s.hidden.get? c = some ((List.range T).map (row c))

theorem gatherPerRequest_stored {s : AifdState α ρ} {T : Nat} {row : Int → Nat → ρ}
    {chosen : Nat → Int} (nonempty : s.candidates ≠ []) (stored : StoredHidden s T row)
    (member : ∀ t < T, chosen t ∈ s.candidates) :
    gatherPerRequest s ((List.range T).map chosen) =
      .ok ((List.range T).map fun t => row (chosen t) t) := by
  obtain ⟨first, rest, split⟩ := List.exists_cons_of_ne_nil nonempty
  have fetch (c : Int) (hc : c ∈ s.candidates) :
      fetchHidden s c = .ok ((List.range T).map (row c)) := by
    rw [fetchHidden, stored c hc]
  -- `base` is what earlier rounds left: only tokens whose layer is still to come are wrong in it
  have overwrite (ids : List Int) (known : ∀ c ∈ ids, c ∈ s.candidates) (base : Nat → ρ) :
      ids.foldlM (fun out auxId => do
        let rows ← fetchHidden s auxId
        whereRows (((List.range T).map chosen).map (· == auxId)) rows out) ((List.range T).map base) =
      .ok ((List.range T).map fun t => if chosen t ∈ ids then row (chosen t) t else base t) := by
    induction ids generalizing base with
    | nil => simp [pure, Except.pure]
    | cons c ids ih =>
      have step : (do
          let rows ← fetchHidden s c
          whereRows (((List.range T).map chosen).map (· == c)) rows ((List.range T).map base)) =
          .ok ((List.range T).map fun t => if chosen t == c then row c t else base t) := by
        rw [fetch c (known c (by simp)), List.map_map]
        exact whereRows_range T _ _ _
      rw [List.foldlM_cons, step]
      refine (ih (fun d hd => known d (by simp [hd])) _).trans (congrArg _ ?_)
      apply List.map_congr_left
      intro t _
      by_cases here : chosen t = c <;> by_cases later : chosen t ∈ ids <;> simp [here, later]
  have known : ∀ c ∈ rest, c ∈ s.candidates := fun c hc => by simp [split, hc]
  have base := fetch first (by simp [split])
  simp only [gatherPerRequest, split]
  rw [base]
  simp only [bind, Except.bind] at overwrite ⊢
  rw [overwrite rest known]
  simp only [List.length_map, List.length_range, if_true, Except.ok.injEq]
  apply List.map_congr_left
  intro t ht
  have chosenMember := member t (List.mem_range.mp ht)
  rw [split, List.mem_cons] at chosenMember
  split
  · rfl
  next other => rw [chosenMember.resolve_right other]

end Gather

end DreamAifd
