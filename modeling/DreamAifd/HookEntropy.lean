import DreamAifd.TndAttention

/-! What a hook stores in a step of prefills when the operator computes causal attention: for
every token the mean over the heads of the entropy of its attention weights. The log-sum-exp
comes in one of two layouts, which its shape tells apart unless there are as many tokens as heads. -/
namespace DreamAifd

open Segments Softmax

variable {heads kvHeads headDim : Nat}

/-- `repeat_interleave` of the key heads: consecutive query heads share one. -/
def kvHead (divides : kvHeads ∣ heads) (h : Fin heads) : Fin kvHeads :=
  ⟨h / (heads / kvHeads), Nat.div_lt_of_lt_mul (by rw [Nat.div_mul_cancel divides]; exact h.is_lt)⟩

/-- Order of the first two dimensions of the log-sum-exp. -/
inductive LseMajor where
  | head
  | token
  deriving DecidableEq, Repr

def LseMajor.Holds {α : Type*} (major : LseMajor) (lse : Tensor α) (numTokens numHeads : Nat)
    (value : Nat → Nat → α) : Prop :=
  match major with
  | .head => lse.shape = [numHeads, numTokens, 1] ∧
      ∀ t < numTokens, ∀ h < numHeads, lse.entry [h, t, 0] = value t h
  | .token => lse.shape = [numTokens, numHeads, 1] ∧
      ∀ t < numTokens, ∀ h < numHeads, lse.entry [t, h, 0] = value t h

/-- What `_as_tn` takes for the entry of token `t` and head `h`. With as many tokens as heads it
reads the first dimension as the heads. -/
def LseMajor.recovered {α : Type*} (major : LseMajor) (numTokens numHeads : Nat) (value : Nat → Nat → α)
    (t h : Nat) : α :=
  if major = .token ∧ numTokens = numHeads then value h t else value t h

theorem asTn_recovered {α : Type*} {major : LseMajor} {lse : Tensor α} {numTokens numHeads : Nat}
    {value : Nat → Nat → α} (holds : major.Holds lse numTokens numHeads value) :
    ∃ x, asTn lse numTokens numHeads = some x ∧
      ∀ t < numTokens, ∀ h < numHeads, x t h = major.recovered numTokens numHeads value t h := by
  obtain ⟨shape, entry⟩ := lse
  cases major with
  | head =>
    obtain ⟨rfl, entries⟩ := holds
    refine ⟨_, asTn_headMajor numTokens numHeads entry, fun t ht h hh => ?_⟩
    rw [LseMajor.recovered, if_neg (by simp)]
    exact entries t ht h hh
  | token =>
    obtain ⟨rfl, entries⟩ := holds
    by_cases square : numTokens = numHeads
    · subst square
      refine ⟨_, asTn_headMajor numTokens numTokens entry, fun t ht h hh => ?_⟩
      rw [LseMajor.recovered, if_pos ⟨rfl, rfl⟩]
      exact entries h hh t ht
    · refine ⟨_, asTn_tokenMajor entry square, fun t ht h hh => ?_⟩
      rw [LseMajor.recovered, if_neg (fun both => square both.2)]
      exact entries t ht h hh

section Outputs

variable (kvHead : Fin heads → Fin kvHeads) (scale : ℝ)
  (segments : List (List (TokenRows ℝ heads kvHeads headDim)))

noncomputable def packedLse (t h : Nat) : ℝ :=
  if bound : h < heads then
    (segments.flatMap fun s => (List.range s.length).map (attendedLse kvHead scale s)).getD t 0 ⟨h, bound⟩
  else 0

variable {kvHead scale segments}

variable (kvHead scale) in
theorem packedLse_start {k : Nat} (hk : k < segments.length) {i : Nat} (inside : i < segments[k].length)
    (h : Fin heads) :
    packedLse kvHead scale segments (start (segments.map List.length) k + i) h =
      attendedLse kvHead scale segments[k] i h := by
  have entry := getD_flatMap (fun s => (List.range s.length).map (attendedLse kvHead scale s)) segments hk
    (by simpa using inside) 0
  simp only [List.length_map, List.length_range, List.getElem_map, List.getElem_range] at entry
  rw [packedLse, dif_pos h.is_lt, Fin.eta]
  exact congrFun entry h

/-- The operator's result for the packed segments: the causal average of the keys and the
log-sum-exp of every token and head. -/
structure ReturnsCausal (kvHead : Fin heads → Fin kvHeads) (scale : ℝ)
    (segments : List (List (TokenRows ℝ heads kvHeads headDim))) (major : LseMajor)
    (output : FiaOutput ℝ heads headDim) : Prop where
  out : ∀ k (hk : k < segments.length), ∀ i < segments[k].length,
    output.out (start (segments.map List.length) k + i) = attended kvHead scale segments[k] i
  lse : major.Holds output.lse segments.flatten.length heads (packedLse kvHead scale segments)

end Outputs

section Operator

variable (major : LseMajor) (kvHead : Fin heads → Fin kvHeads)

def LseMajor.tensor {α : Type*} (numTokens numHeads : Nat) (value : Nat → Nat → α) : Tensor α :=
  match major with
  | .head => ⟨[numHeads, numTokens, 1], fun index => value (index.getD 1 0) (index.getD 0 0)⟩
  | .token => ⟨[numTokens, numHeads, 1], fun index => value (index.getD 0 0) (index.getD 1 0)⟩

noncomputable def causalOutput (args : FiaArgs ℝ heads kvHeads headDim) : FiaOutput ℝ heads headDim :=
  let segments := (cumulativeToLengths args.actualSeqLengths).splitLengths (args.query.zip args.key)
  { out := fun t =>
      (segments.flatMap fun s => (List.range s.length).map (attended kvHead args.scale s)).getD t 0
    lse := major.tensor args.query.length heads (packedLse kvHead args.scale segments) }

theorem splitLengths_flatten {β : Type*} (segments : List (List β)) :
    (segments.map List.length).splitLengths segments.flatten = segments := by
  induction segments with
  | nil => rfl
  | cons s segments ih => simp [ih]

theorem returnsCausal_causalOutput (scale : ℝ)
    (segments : List (List (TokenRows ℝ heads kvHeads headDim))) :
    ReturnsCausal kvHead scale segments major (causalOutput major kvHead (packedArgs scale segments)) := by
  have rows : (segments.flatten.map (·.1)).zip (segments.flatten.map (·.2)) = segments.flatten :=
    (List.zip_of_prod rfl rfl).symm
  have cut : (cumulativeToLengths (packedArgs scale segments).actualSeqLengths).splitLengths
      ((packedArgs scale segments).query.zip (packedArgs scale segments).key) = segments := by
    rw [packedArgs, rows, cumulativeToLengths_cumulative, splitLengths_flatten]
  refine ⟨fun k hk i inside => ?_, ?_⟩
  · have entry := getD_flatMap (fun s => (List.range s.length).map (attended kvHead scale s)) segments hk
      (by simpa using inside) 0
    simp only [List.length_map, List.length_range, List.getElem_map, List.getElem_range] at entry
    rw [causalOutput, cut]
    exact entry
  · rw [causalOutput, cut]
    simp only [packedArgs, List.length_map]
    cases major <;> exact ⟨rfl, fun _ _ _ _ => rfl⟩

end Operator

section Hook

variable {layer : AttnModule ℝ} {ρ : Type*}

abbrev LayerRows (layer : AttnModule ℝ) :=
  (Fin (layer.numHeads * layer.headSize) → ℝ) × (Fin (layer.numKvHeads * layer.headSize) → ℝ)

def viewRows (row : LayerRows layer) : TokenRows ℝ layer.numHeads layer.numKvHeads layer.headSize :=
  (viewHeads row.1, viewHeads row.2)

def viewSegments (segments : List (List (LayerRows layer))) :
    List (List (TokenRows ℝ layer.numHeads layer.numKvHeads layer.headSize)) :=
  segments.map (List.map viewRows)

def prefillCall (operator : FusedInferAttentionScore ℝ layer.numHeads layer.numKvHeads layer.headSize)
    (segments : List (List (LayerRows layer))) : AttnCall ℝ where
  layer := layer
  args := .queryKey (some (segments.flatten.map (·.1))) (some (segments.flatten.map (·.2)))
  context := some (some ⟨some splitfuseAttnMask, some (.of (segments.map List.length)), 0⟩)
  npuFusedInferAttentionScore := operator

variable {operator : FusedInferAttentionScore ℝ layer.numHeads layer.numKvHeads layer.headSize}
  {segments : List (List (LayerRows layer))}

theorem length_viewSegments : (viewSegments segments).map List.length = segments.map List.length := by
  simp [viewSegments, Function.comp_def]

theorem flatten_viewSegments : (viewSegments segments).flatten = segments.flatten.map viewRows := by
  rw [viewSegments, List.map_flatten]

theorem fia_prefillCall :
    fia operator ((segments.flatten.map (·.1)).map viewHeads) ((segments.flatten.map (·.2)).map viewHeads)
        ((segments.flatten.map (·.2)).map viewHeads) layer.scale splitfuseAttnMask
        (cumulative 0 (segments.map List.length)) =
      operator (packedArgs layer.scale (viewSegments segments)) := by
  rw [fia, packedArgs, length_viewSegments, flatten_viewSegments]
  simp only [List.map_map]
  rfl

noncomputable def storedValue (major : LseMajor) (kvHead : Fin layer.numHeads → Fin layer.numKvHeads)
    (segments : List (List (LayerRows layer))) (output : FiaOutput ℝ layer.numHeads layer.headSize)
    (t : Nat) (row : LayerRows layer) : ℝ :=
  headMean (headEntropy layer.scale (viewHeads row.1) (output.out t) fun h =>
    major.recovered segments.flatten.length layer.numHeads
      (packedLse kvHead layer.scale (viewSegments segments)) t h)

def packedSegments (segments : List (List (LayerRows layer))) (many : 1 < segments.flatten.length) :
    PrefillInput layer where
  query := segments.flatten.map (·.1)
  key := segments.flatten.map (·.2)
  attnMask := splitfuseAttnMask
  seqLengths := .of (segments.map List.length)
  many := many.trans_eq (List.length_map _).symm
  segmented := by
    rw [CumulativeLengths.ends_of, ← List.length_pos_iff, length_cumulative, List.length_map,
      List.length_pos_iff]
    rintro rfl
    simp at many

theorem prefillInput_prefillCall (many : 1 < segments.flatten.length) :
    prefillInput (prefillCall operator segments) = some (packedSegments segments many) := by
  have ends : cumulative 0 (segments.map List.length) ≠ [] := (packedSegments segments many).segmented
  have tokens : 1 < (segments.flatten.map (·.1)).length := (packedSegments segments many).many
  exact (dif_pos tokens).trans ((dif_pos ends).trans (if_neg (Nat.lt_irrefl 0)))

theorem tokenEntropy_packedSegments {major : LseMajor}
    {kvHead : Fin layer.numHeads → Fin layer.numKvHeads}
    {output : FiaOutput ℝ layer.numHeads layer.headSize} (many : 1 < segments.flatten.length)
    (returned : operator (packedArgs layer.scale (viewSegments segments)) = some output)
    (causal : ReturnsCausal kvHead layer.scale (viewSegments segments) major output) :
    tokenEntropy layer operator (packedSegments segments many) =
      some (segments.flatten.mapIdx (storedValue major kvHead segments output)) := by
  obtain ⟨x, recovered, cells⟩ := asTn_recovered causal.lse
  rw [flatten_viewSegments, List.length_map] at recovered cells
  simp only [tokenEntropy, packedSegments, CumulativeLengths.ends_of]
  rw [fia_prefillCall, returned]
  simp only [List.length_map, recovered, Option.some.injEq]
  apply List.ext_getElem
  · simp only [List.length_mapIdx, List.length_map]
  · intro t bound _
    have inside : t < segments.flatten.length := by
      simpa only [List.length_mapIdx, List.length_map] using bound
    simp only [List.getElem_mapIdx, List.getElem_map, storedValue]
    exact congrArg headMean (congrArg _ (funext fun h => cells t inside h h.is_lt))

theorem measure_prefillCall {major : LseMajor} {kvHead : Fin layer.numHeads → Fin layer.numKvHeads}
    {output : FiaOutput ℝ layer.numHeads layer.headSize} (many : 1 < segments.flatten.length)
    (returned : operator (packedArgs layer.scale (viewSegments segments)) = some output)
    (causal : ReturnsCausal kvHead layer.scale (viewSegments segments) major output) :
    measure (prefillCall operator segments) =
      some ⟨segments.flatten.mapIdx (storedValue major kvHead segments output), segments.map List.length⟩ := by
  have computed := tokenEntropy_packedSegments many returned causal
  rw [measure, prefillInput_prefillCall many]
  simp only [prefillCall]
  rw [computed]
  simp only [packedSegments, CumulativeLengths.ends_of, cumulativeToLengths_cumulative]

/-- Another log-sum-exp with the same sum over the heads leaves the mean alone, and only such. -/
theorem headMean_headEntropy {heads headDim : Nat} (scale : ℝ) (q outK : HeadRow ℝ heads headDim)
    (lse other : Fin heads → ℝ) :
    headMean (headEntropy scale q outK lse) = headMean (headEntropy scale q outK other) ↔
      ∑ h, lse h = ∑ h, other h := by
  rcases Nat.eq_zero_or_pos heads with rfl | some_head
  · simp [headMean]
  · have count : (heads : ℝ) ≠ 0 := Nat.cast_ne_zero.mpr some_head.ne'
    simp only [headMean, headEntropy, Finset.sum_sub_distrib]
    rw [div_left_inj' count]
    exact sub_left_inj

theorem headMean_mem {heads : Nat} {entropy : Fin heads → ℝ} {bound : ℝ} (nonneg : 0 ≤ bound)
    (each : ∀ h, 0 ≤ entropy h ∧ entropy h ≤ bound) :
    0 ≤ headMean entropy ∧ headMean entropy ≤ bound := by
  have total : ∑ h, entropy h ≤ heads * bound := by
    have limit := Finset.sum_le_card_nsmul Finset.univ entropy bound fun h _ => (each h).2
    rwa [Finset.card_univ, Fintype.card_fin, nsmul_eq_mul] at limit
  refine ⟨div_nonneg (Finset.sum_nonneg fun h _ => (each h).1) (Nat.cast_nonneg _), ?_⟩
  rcases Nat.eq_zero_or_pos heads with rfl | some_head
  · simpa [headMean] using nonneg
  · rwa [headMean, div_le_iff₀ (Nat.cast_pos.mpr some_head), mul_comm bound]

/-- Entropy of the attention weights of token `i` of a segment, head by head. -/
noncomputable def attentionEntropy (kvHead : Fin layer.numHeads → Fin layer.numKvHeads)
    (segment : List (LayerRows layer)) (i : Nat) (h : Fin layer.numHeads) : ℝ :=
  entropy (i + 1) (logits kvHead layer.scale (segment.map viewRows) i h)

theorem attentionEntropy_mem (kvHead : Fin layer.numHeads → Fin layer.numKvHeads)
    (segment : List (LayerRows layer)) (i : Nat) (h : Fin layer.numHeads) :
    0 ≤ attentionEntropy kvHead segment i h ∧ attentionEntropy kvHead segment i h ≤ Real.log (i + 1) := by
  have most := entropy_le_log (Nat.succ_pos i) (logits kvHead layer.scale (segment.map viewRows) i h)
  rw [Nat.succ_eq_add_one, Nat.cast_add_one] at most
  exact ⟨entropy_nonneg _ _, most⟩

/-- The hook returns with one value for every token: the mean over the heads of the entropies
that the log-sum-exp and the averaged keys give, between 0 and the logarithm of the number of
keys the token attends to. -/
def StoresEntropy (auxId : Int) (kvHead : Fin layer.numHeads → Fin layer.numKvHeads)
    (operator : FusedInferAttentionScore ℝ layer.numHeads layer.numKvHeads layer.headSize)
    (segments : List (List (LayerRows layer))) (output : FiaOutput ℝ layer.numHeads layer.headSize)
    (s : AifdState ℝ ρ) : Prop :=
  ∃ s' stored, attnHook auxId (prefillCall operator segments) s = .done s' ∧
    s'.entropy.get? auxId = some stored ∧ stored.length = segments.flatten.length ∧
    ∀ k (hk : k < segments.length), ∀ i (inside : i < segments[k].length),
      let t := start (segments.map List.length) k + i
      (∀ h : Fin layer.numHeads, packedLse kvHead layer.scale (viewSegments segments) t h -
          (∑ d, viewHeads segments[k][i].1 h d * output.out t h d) * layer.scale =
        attentionEntropy kvHead segments[k] i h) ∧
      stored.getD t 0 = headMean (attentionEntropy kvHead segments[k] i) ∧
      0 ≤ stored.getD t 0 ∧ stored.getD t 0 ≤ Real.log (i + 1)

section Token

variable {kvHead : Fin layer.numHeads → Fin layer.numKvHeads}
  {output : FiaOutput ℝ layer.numHeads layer.headSize} {major : LseMajor}
  {k : Nat} (hk : k < segments.length) {i : Nat} (inside : i < segments[k].length)

include hk inside

/-- The identity the hook rests on. -/
theorem headEntropy_causal
    (causal : ReturnsCausal kvHead layer.scale (viewSegments segments) major output) :
    headEntropy layer.scale (viewHeads segments[k][i].1)
        (output.out (start (segments.map List.length) k + i))
        (fun h => packedLse kvHead layer.scale (viewSegments segments)
          (start (segments.map List.length) k + i) h) =
      attentionEntropy kvHead segments[k] i := by
  have hk' : k < (viewSegments segments).length := by simpa [viewSegments] using hk
  have segment : (viewSegments segments)[k] = segments[k].map viewRows := by simp [viewSegments]
  have inside' : i < (viewSegments segments)[k].length := by simpa [segment] using inside
  have outs := causal.out k hk' i inside'
  have row : ((segments[k].map viewRows).getD i 0).1 = viewHeads segments[k][i].1 := by
    rw [List.getD_eq_getElem _ _ (by simpa using inside), List.getElem_map, viewRows]
  funext h
  have lse := packedLse_start kvHead layer.scale hk' inside' h
  rw [length_viewSegments, segment] at outs lse
  have identity := headEntropy_attended kvHead layer.scale (segments[k].map viewRows) i h
  rw [row] at identity
  rw [attentionEntropy, ← identity, headEntropy, headEntropy, outs, lse]

theorem getD_stored (default : ℝ) :
    (segments.flatten.mapIdx (storedValue major kvHead segments output)).getD
        (start (segments.map List.length) k + i) default =
      storedValue major kvHead segments output (start (segments.map List.length) k + i) segments[k][i] := by
  have row := getD_flatMap id segments hk inside segments[k][i]
  have position : start (segments.map List.length) k + i < segments.flatten.length :=
    List.length_flatten ▸ start_map_add_lt List.length hk inside
  simp only [id_eq, List.flatMap_id] at row
  rw [List.getD_eq_getElem _ _ position] at row
  rw [List.getD_eq_getElem _ _ (by rwa [List.length_mapIdx]), List.getElem_mapIdx, row]

theorem stored_iff (causal : ReturnsCausal kvHead layer.scale (viewSegments segments) major output) :
    storedValue major kvHead segments output (start (segments.map List.length) k + i) segments[k][i] =
        headMean (attentionEntropy kvHead segments[k] i) ↔
      ∑ h : Fin layer.numHeads, major.recovered segments.flatten.length layer.numHeads
          (packedLse kvHead layer.scale (viewSegments segments))
          (start (segments.map List.length) k + i) h =
        ∑ h : Fin layer.numHeads, packedLse kvHead layer.scale (viewSegments segments)
          (start (segments.map List.length) k + i) h := by
  rw [← headEntropy_causal hk inside causal, storedValue]
  exact headMean_headEntropy ..

end Token

theorem recovered_sums_iff {major : LseMajor} {T : Nat} {heads : Nat} {value : Nat → Nat → ℝ} :
    (∀ t < T, ∑ h : Fin heads, major.recovered T heads value t h = ∑ h : Fin heads, value t h) ↔
      major = .head ∨ T ≠ heads ∨ ∀ t < T, ∑ h : Fin heads, value h t = ∑ h : Fin heads, value t h := by
  cases major with
  | head => simp [LseMajor.recovered]
  | token =>
    by_cases square : T = heads
    · simp [LseMajor.recovered, square]
    · simp [LseMajor.recovered, square]

theorem storesEntropy_iff_sums {auxId : Int} {kvHead : Fin layer.numHeads → Fin layer.numKvHeads}
    {output : FiaOutput ℝ layer.numHeads layer.headSize} {major : LseMajor} {s : AifdState ℝ ρ}
    (enabled : s.enabled) (many : 1 < segments.flatten.length)
    (returned : operator (packedArgs layer.scale (viewSegments segments)) = some output)
    (causal : ReturnsCausal kvHead layer.scale (viewSegments segments) major output) :
    StoresEntropy auxId kvHead operator segments output s ↔ ∀ t < segments.flatten.length,
      ∑ h : Fin layer.numHeads, major.recovered segments.flatten.length layer.numHeads
          (packedLse kvHead layer.scale (viewSegments segments)) t h =
        ∑ h : Fin layer.numHeads, packedLse kvHead layer.scale (viewSegments segments) t h := by
  have measured := measure_prefillCall many returned causal
  have returns : attnHook auxId (prefillCall operator segments) s =
      .done (s.absorb auxId (measure (prefillCall operator segments))) := by
    apply attnHook_absorb enabled
    intro _ m found
    rw [measured] at found
    cases found
    rw [List.length_mapIdx, List.length_flatten]
  have held : (s.absorb auxId (measure (prefillCall operator segments))).entropy.get? auxId =
      some (segments.flatten.mapIdx (storedValue major kvHead segments output)) := by
    rw [measured]
    exact Dict.get?_set_self ..
  constructor
  · rintro ⟨s', stored, done, found, -, tokens⟩ t inside
    rw [returns] at done
    cases done
    rw [held] at found
    cases found
    rw [List.length_flatten] at inside
    obtain ⟨k, hk, i, within, rfl⟩ := exists_segment _ inside
    have hk' : k < segments.length := by simpa using hk
    have within' : i < segments[k].length := by simpa using within
    obtain ⟨-, mean, -⟩ := tokens k hk' i within'
    rw [getD_stored hk' within'] at mean
    exact (stored_iff hk' within' causal).mp mean
  · intro sums
    refine ⟨_, _, returns, held, List.length_mapIdx .., fun k hk i within => ?_⟩
    have position : start (segments.map List.length) k + i < segments.flatten.length :=
      List.length_flatten ▸ start_map_add_lt List.length hk within
    have mean := (stored_iff hk within causal).mpr (sums _ position)
    have range := headMean_mem (Real.log_nonneg (by simp))
      fun h => attentionEntropy_mem kvHead segments[k] i h
    dsimp only
    rw [getD_stored hk within, mean]
    exact ⟨fun h => congrFun (headEntropy_causal hk within causal) h, rfl, range⟩

/-- With as many tokens as heads and a token-major log-sum-exp, the hook adds up over the first
index where it should add up over the second. -/
theorem storesEntropy_iff {auxId : Int} (divides : layer.numKvHeads ∣ layer.numHeads)
    {output : FiaOutput ℝ layer.numHeads layer.headSize} {major : LseMajor} {s : AifdState ℝ ρ}
    (enabled : s.enabled) (many : 1 < segments.flatten.length)
    (returned : operator (packedArgs layer.scale (viewSegments segments)) = some output)
    (causal : ReturnsCausal (kvHead divides) layer.scale (viewSegments segments) major output) :
    StoresEntropy auxId (kvHead divides) operator segments output s ↔
      major = .head ∨ segments.flatten.length ≠ layer.numHeads ∨
        ∀ t < segments.flatten.length,
          ∑ h : Fin layer.numHeads, packedLse (kvHead divides) layer.scale (viewSegments segments) h t =
            ∑ h : Fin layer.numHeads, packedLse (kvHead divides) layer.scale (viewSegments segments) t h := by
  rw [storesEntropy_iff_sums enabled many returned causal]
  exact recovered_sums_iff

end Hook

section Square

def pairLayer : AttnModule ℝ := ⟨2, 1, 1, 1⟩

theorem pairLayer_divides : pairLayer.numKvHeads ∣ pairLayer.numHeads := ⟨2, rfl⟩

def zeroSegments (lengths : List Nat) : List (List (LayerRows pairLayer)) :=
  lengths.map fun n => List.replicate n (0, 0)

noncomputable def pairOutput (major : LseMajor) (lengths : List Nat) : FiaOutput ℝ 2 1 :=
  causalOutput major (kvHead pairLayer_divides) (packedArgs 1 (viewSegments (zeroSegments lengths)))

theorem storesEntropy_fiveTokens : StoresEntropy 3 (kvHead pairLayer_divides)
    (fun args => some (causalOutput .token (kvHead pairLayer_divides) args)) (zeroSegments [2, 3])
    (pairOutput .token [2, 3]) ({ enabled := true } : AifdState ℝ Nat) :=
  (storesEntropy_iff pairLayer_divides rfl (by simp [zeroSegments]) rfl
    (returnsCausal_causalOutput ..)).mpr (.inr (.inl (by simp [zeroSegments, pairLayer])))

theorem attendedLse_zero {kvHead : Fin heads → Fin kvHeads} {scale : ℝ}
    {tokens : List (TokenRows ℝ heads kvHeads headDim)} {i : Nat} (h : Fin heads)
    (silent : (tokens.getD i 0).1 = 0) : attendedLse kvHead scale tokens i h = Real.log (i + 1) := by
  have level : logits kvHead scale tokens i h = fun _ => 0 := by
    funext j
    rw [logits, silent]
    simp
  rw [attendedLse, level]
  simp [logSumExp, Softmax.partition]

theorem packedLse_pair (t : Nat) (inside : t < 2) (h : Fin 2) :
    packedLse (kvHead pairLayer_divides) 1 (viewSegments (zeroSegments [2])) t h = Real.log (t + 1) := by
  have hk : 0 < (viewSegments (zeroSegments [2])).length := by simp [viewSegments, zeroSegments]
  have within : t < (viewSegments (zeroSegments [2]))[0].length := by
    simp only [viewSegments, zeroSegments, List.map_cons, List.getElem_cons_zero, List.length_map,
      List.length_replicate]
    exact inside
  have entry := packedLse_start (kvHead pairLayer_divides) 1 hk within h
  rw [start, List.take_zero, List.sum_nil, Nat.zero_add] at entry
  rw [entry]
  apply attendedLse_zero
  rw [List.getD_eq_getElem _ _ within]
  simp only [viewSegments, zeroSegments, List.map_cons, List.getElem_cons_zero, List.getElem_map,
    List.getElem_replicate]
  rfl

/-- Two tokens, two heads and a token-major log-sum-exp: the second token's is read as the second
head's of the first. -/
theorem not_storesEntropy_twoTokens :
    ReturnsCausal (kvHead pairLayer_divides) 1 (viewSegments (zeroSegments [2])) .token
        (pairOutput .token [2]) ∧
      ¬ StoresEntropy 3 (kvHead pairLayer_divides)
        (fun args => some (causalOutput .token (kvHead pairLayer_divides) args)) (zeroSegments [2])
        (pairOutput .token [2]) ({ enabled := true } : AifdState ℝ Nat) := by
  refine ⟨returnsCausal_causalOutput .., fun stores => ?_⟩
  have sums := (storesEntropy_iff_sums rfl (by simp [zeroSegments]) rfl
    (returnsCausal_causalOutput ..)).mp stores 0 (by simp [zeroSegments])
  have square : (zeroSegments [2]).flatten.length = pairLayer.numHeads := by simp [zeroSegments, pairLayer]
  simp only [LseMajor.recovered, square, and_self, if_true] at sums
  have sums : packedLse _ 1 (viewSegments (zeroSegments [2])) 0 0 +
        packedLse _ 1 (viewSegments (zeroSegments [2])) 1 0 =
      packedLse _ 1 (viewSegments (zeroSegments [2])) 0 0 +
        packedLse _ 1 (viewSegments (zeroSegments [2])) 0 1 :=
    (Fin.sum_univ_two _).symm.trans (sums.trans (Fin.sum_univ_two _))
  have second := packedLse_pair 1 Nat.one_lt_two 0
  have first := packedLse_pair 0 Nat.two_pos 1
  have growth : Real.log 1 < Real.log 2 := Real.log_lt_log one_pos one_lt_two
  norm_num at second first growth
  linarith

end Square

end DreamAifd
