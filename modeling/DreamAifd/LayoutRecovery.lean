import DreamAifd.HookEntropy

/-! One call of a hook under both layouts of the log-sum-exp, whatever the operator's values are. Only
the shape tells the layouts apart, and with as many tokens as heads it does not. -/
namespace DreamAifd

section Recovered

variable {α : Type*} {T N : Nat} {value : Nat → Nat → α}

theorem LseMajor.recovered_head (T N : Nat) (value : Nat → Nat → α) (t h : Nat) :
    LseMajor.head.recovered T N value t h = value t h := if_neg (by simp)

/-- A token-major matrix is transposed where it is square. -/
theorem LseMajor.recovered_token (T N : Nat) (value : Nat → Nat → α) (t h : Nat) :
    LseMajor.token.recovered T N value t h = if T = N then value h t else value t h := by
  simp [LseMajor.recovered]

theorem recovered_eq_iff : (∀ major : LseMajor, ∀ t < T, ∀ h < N, major.recovered T N value t h = value t h) ↔
    T ≠ N ∨ ∀ t < T, ∀ h < T, value h t = value t h := by
  constructor
  · intro recovers
    rw [or_iff_not_imp_left, not_not]
    rintro rfl t token h head
    have read := recovers .token t token h head
    rwa [LseMajor.recovered_token, if_pos rfl] at read
  · intro condition major t token h head
    cases major with
    | head => exact LseMajor.recovered_head ..
    | token =>
      rw [LseMajor.recovered_token]
      split
      next square =>
        subst square
        exact condition.resolve_left (not_not.mpr rfl) t token h head
      next => rfl

end Recovered

section Layouts

variable {α ρ : Type*} {layer : AttnModule α}

def PrefillInput.call (input : PrefillInput layer)
    (operator : FusedInferAttentionScore α layer.numHeads layer.numKvHeads layer.headSize) : AttnCall α where
  layer := layer
  args := .queryKey (some input.query) (some input.key)
  context := some (some ⟨some input.attnMask, some input.seqLengths, 0⟩)
  npuFusedInferAttentionScore := operator

theorem prefillInput_call (input : PrefillInput layer)
    (operator : FusedInferAttentionScore α layer.numHeads layer.numKvHeads layer.headSize) :
    prefillInput (input.call operator) = some input :=
  (dif_pos input.many).trans ((dif_pos input.segmented).trans (if_neg (Nat.lt_irrefl 0)))

variable [Field α]

def scaledDot {heads headDim : Nat} (scale : α) (q outK : HeadRow α heads headDim) (h : Fin heads) : α :=
  (∑ d, q h d * outK h d) * scale

/-- Under either layout, every value of the log-sum-exp meets the dot product of its own token and head,
and the hook leaves the same state behind. -/
structure LayoutsAgree (ρ : Type*) (input : PrefillInput layer) (out : Nat → HeadRow α layer.numHeads layer.headSize)
    (value : Nat → Nat → α) : Prop where
  paired (major : LseMajor) (lse : Tensor α) (holds : major.Holds lse input.query.length layer.numHeads value) :
    ∃ x, asTn lse input.query.length layer.numHeads = some x ∧
      ∀ t (inside : t < input.query.length) (h : Fin layer.numHeads),
        headEntropy layer.scale (viewHeads input.query[t]) (out t) (fun h => x t h) h =
          value t h - scaledDot layer.scale (viewHeads input.query[t]) (out t) h
  stored (headMajor tokenMajor : Tensor α)
    (headHolds : LseMajor.head.Holds headMajor input.query.length layer.numHeads value)
    (tokenHolds : LseMajor.token.Holds tokenMajor input.query.length layer.numHeads value)
    (auxId : Int) (s : AifdState α ρ) :
    attnHook auxId (input.call fun _ => some ⟨out, headMajor⟩) s =
      attnHook auxId (input.call fun _ => some ⟨out, tokenMajor⟩) s

variable {input : PrefillInput layer} {out : Nat → HeadRow α layer.numHeads layer.headSize} {value : Nat → Nat → α}

/-- What the hook measures under a layout. -/
theorem measure_call {major : LseMajor} {lse : Tensor α}
    (holds : major.Holds lse input.query.length layer.numHeads value) :
    measure (input.call fun _ => some ⟨out, lse⟩) = some ⟨input.query.mapIdx fun t row =>
      headMean (headEntropy layer.scale (viewHeads row) (out t) fun h =>
        major.recovered input.query.length layer.numHeads value t h), cumulativeToLengths input.seqLengths.ends⟩ := by
  obtain ⟨x, recovered, cells⟩ := asTn_recovered holds
  have computed : tokenEntropy layer (fun _ => some ⟨out, lse⟩) input = some (input.query.mapIdx fun t row =>
      headMean (headEntropy layer.scale (viewHeads row) (out t) fun h =>
        major.recovered input.query.length layer.numHeads value t h)) := by
    simp only [tokenEntropy, fia, recovered, Option.some.injEq]
    apply List.ext_getElem
    · simp only [List.length_mapIdx, List.length_map]
    · intro t bound _
      have inside : t < input.query.length := by simpa only [List.length_mapIdx, List.length_map] using bound
      simp only [List.getElem_mapIdx, List.getElem_map]
      exact congrArg headMean (congrArg _ (funext fun h => cells t inside h h.is_lt))
  rw [measure, prefillInput_call]
  simp only [PrefillInput.call]
  rw [computed]

theorem attnHook_congr {call other : AttnCall α} (same : measure call = measure other) (auxId : Int)
    (s : AifdState α ρ) : attnHook auxId call s = attnHook auxId other s := by
  rw [attnHook, attnHook, same]

/-- The two layouts are told apart by the shape, or else by nothing but a symmetric matrix. -/
theorem layoutsAgree_iff (ρ : Type*) (input : PrefillInput layer)
    (out : Nat → HeadRow α layer.numHeads layer.headSize) (value : Nat → Nat → α) :
    LayoutsAgree ρ input out value ↔ input.query.length ≠ layer.numHeads ∨
      ∀ t < input.query.length, ∀ h < input.query.length, value h t = value t h := by
  rw [← recovered_eq_iff]
  constructor
  · intro agree major t inside h head
    have holds : major.Holds (major.tensor input.query.length layer.numHeads value) input.query.length
        layer.numHeads value := by cases major <;> exact ⟨rfl, fun _ _ _ _ => rfl⟩
    obtain ⟨x, read, pairs⟩ := agree.paired major _ holds
    obtain ⟨y, again, cells⟩ := asTn_recovered holds
    obtain rfl := Option.some.inj (read.symm.trans again)
    rw [← cells t inside h head]
    exact sub_left_inj.mp (pairs t inside ⟨h, head⟩)
  · intro recovers
    constructor
    case paired =>
      intro major lse holds
      obtain ⟨x, read, cells⟩ := asTn_recovered holds
      refine ⟨x, read, fun t inside h => ?_⟩
      rw [headEntropy, cells t inside h h.is_lt, recovers major t inside h h.is_lt, scaledDot]
    case stored =>
      intro headMajor tokenMajor headHolds tokenHolds auxId s
      apply attnHook_congr
      rw [measure_call headHolds, measure_call tokenHolds]
      congr 2
      apply List.ext_getElem (by simp only [List.length_mapIdx])
      intro t bound _
      have inside : t < input.query.length := by simpa only [List.length_mapIdx] using bound
      simp only [List.getElem_mapIdx]
      refine congrArg headMean (congrArg _ (funext fun h => ?_))
      rw [recovers .head t inside h h.is_lt, recovers .token t inside h h.is_lt]

end Layouts

section Square

def twoHeads : AttnModule ℚ := ⟨2, 1, 1, 1⟩

def twoTokens : PrefillInput twoHeads where
  query := [0, 0]
  key := [0, 0]
  attnMask := splitfuseAttnMask
  seqLengths := .of [2]
  many := by decide
  segmented := by decide

/-- With as many tokens as heads, a token-major log-sum-exp of 0 for the first token and 1 for the second
is read as 0 for the first head and 1 for the second: both tokens get 1/2. -/
theorem not_layoutsAgree_twoTokens :
    ¬ LayoutsAgree Nat twoTokens (fun _ => 0) (fun t _ => t) ∧
      (measure (twoTokens.call fun _ => some ⟨fun _ => 0, LseMajor.head.tensor 2 2 fun t _ => t⟩)).map
          (·.entropy) = some [0, 1] ∧
      (measure (twoTokens.call fun _ => some ⟨fun _ => 0, LseMajor.token.tensor 2 2 fun t _ => t⟩)).map
          (·.entropy) = some [1 / 2, 1 / 2] := by
  refine ⟨fun agree => ?_, by decide +kernel, by decide +kernel⟩
  obtain ⟨x, read, pairs⟩ := agree.paired .token (LseMajor.token.tensor 2 2 fun t _ => t) ⟨rfl, fun _ _ _ _ => rfl⟩
  obtain rfl := Option.some.inj (read.symm.trans (asTn_headMajor 2 2 _))
  have pair := sub_left_inj.mp (pairs 0 (by decide) (1 : Fin 2))
  exact absurd pair (by decide +kernel)

end Square

end DreamAifd
