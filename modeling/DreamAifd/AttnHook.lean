import DreamAifd.AifdState
import DreamAifd.Averages
import DreamAifd.Segments

/-! The hook on a candidate layer's attention. One call of the fused operator with the keys
as values yields `O^K` and the log-sum-exp, hence the entropy of every token and head; the
operator itself is code outside the repository and arrives with each call. -/
namespace DreamAifd

open Trace Averages

variable {α ρ : Type*}

structure AttnModule (α : Type*) where
  numHeads : Nat
  numKvHeads : Nat
  headSize : Nat
  scale : α

/-- A tensor as shape and entries; the operator's log-sum-exp has no fixed layout. -/
structure Tensor (α : Type*) where
  shape : List Nat
  entry : List Nat → α

abbrev HeadRow (α : Type*) (heads headDim : Nat) := Fin heads → Fin headDim → α

def viewHeads {heads headDim : Nat} (row : Fin (heads * headDim) → α) : HeadRow α heads headDim :=
  fun h d => row (finProdFinEquiv (h, d))

abbrev AttnMask := Nat → Nat → Bool

/-- Ends of consecutive segments, counted from the first token of the step. -/
structure CumulativeLengths where
  ends : List Nat
  sorted : ends.Pairwise (· ≤ ·)

def CumulativeLengths.of (lengths : List Nat) : CumulativeLengths :=
  ⟨Segments.cumulative 0 lengths, (Segments.cumulative_sorted 0 lengths).1⟩

@[simp] theorem CumulativeLengths.ends_of (lengths : List Nat) :
    (CumulativeLengths.of lengths).ends = Segments.cumulative 0 lengths := rfl

structure AttnMetadata where
  attnMask : Option AttnMask
  actualSeqLengthsQ : Option CumulativeLengths
  numDecodeTokens : Nat

/-- Positional arguments of `Attention.forward`. -/
inductive AttnArgs {α : Type*} (layer : AttnModule α) where
  | tooFew
  | queryKey (query : Option (List (Fin (layer.numHeads * layer.headSize) → α)))
      (key : Option (List (Fin (layer.numKvHeads * layer.headSize) → α)))

def swaIntMax : Nat := 2147483647

structure FiaArgs (α : Type*) (heads kvHeads headDim : Nat) where
  query : List (HeadRow α heads headDim)
  key : List (HeadRow α kvHeads headDim)
  value : List (HeadRow α kvHeads headDim)
  attenMask : AttnMask
  actualSeqLengths : List Nat
  actualSeqLengthsKv : List Nat
  scale : α
  sparseMode : Nat
  preTokens : Nat
  nextTokens : Nat

structure FiaOutput (α : Type*) (heads headDim : Nat) where
  out : Nat → HeadRow α heads headDim
  lse : Tensor α

/-- The fused operator; `none` where it raises. -/
abbrev FusedInferAttentionScore (α : Type*) (heads kvHeads headDim : Nat) :=
  FiaArgs α heads kvHeads headDim → Option (FiaOutput α heads headDim)

structure AttnCall (α : Type*) where
  layer : AttnModule α
  args : AttnArgs layer
  /-- Result of `get_attention_context`: `none` where it raises, `some none` in a dummy run. -/
  context : Option (Option AttnMetadata)
  npuFusedInferAttentionScore :
    FusedInferAttentionScore α layer.numHeads layer.numKvHeads layer.headSize

def fia {heads kvHeads headDim : Nat} (operator : FusedInferAttentionScore α heads kvHeads headDim)
    (q : List (HeadRow α heads headDim)) (k v : List (HeadRow α kvHeads headDim)) (scale : α)
    (attnMask : AttnMask) (seqLengths : List Nat) : Option (FiaOutput α heads headDim) :=
  operator {
    query := q, key := k, value := v, attenMask := attnMask
    actualSeqLengths := seqLengths, actualSeqLengthsKv := seqLengths
    scale, sparseMode := 3, preTokens := swaIntMax, nextTokens := swaIntMax }

/-- Bring the log-sum-exp to layout (tokens, heads); `none` where it raises. -/
def asTn (lse : Tensor α) (numTokens numHeads : Nat) : Option (Nat → Nat → α) :=
  let x := if lse.shape.length = 3 ∧ lse.shape.getLast? = some 1
    then ⟨lse.shape.dropLast, fun index => lse.entry (index ++ [0])⟩ else lse
  let x := if x.shape = [numHeads, numTokens]
    then ⟨x.shape.reverse, fun index => x.entry index.reverse⟩ else x
  if x.shape = [numTokens, numHeads] then some fun t h => x.entry [t, h] else none

theorem asTn_headMajor (numTokens numHeads : Nat) (entry : List Nat → α) :
    asTn ⟨[numHeads, numTokens, 1], entry⟩ numTokens numHeads =
      some fun t h => entry [h, t, 0] := by
  simp [asTn]

theorem asTn_tokenMajor {numTokens numHeads : Nat} (entry : List Nat → α)
    (different : numTokens ≠ numHeads) :
    asTn ⟨[numTokens, numHeads, 1], entry⟩ numTokens numHeads =
      some fun t h => entry [t, h, 0] := by
  simp [asTn, different]

/-- `[5, 10, 12]` becomes `[5, 5, 2]`. -/
def cumulativeToLengths : List Nat → List Nat
  | [] => []
  | first :: rest => first :: List.zipWith (· - ·) rest (first :: rest)

theorem cumulativeToLengths_cumulative (lengths : List Nat) :
    cumulativeToLengths (Segments.cumulative 0 lengths) = lengths := by
  have differences (offset : Nat) (lengths : List Nat) :
      List.zipWith (· - ·) (Segments.cumulative offset lengths)
        (offset :: Segments.cumulative offset lengths) = lengths := by
    induction lengths generalizing offset with
    | nil => rfl
    | cons n lengths ih =>
      rw [Segments.cumulative, List.zipWith_cons_cons, ih (offset + n), Nat.add_sub_cancel_left]
  cases lengths with
  | nil => rfl
  | cons n lengths =>
    rw [Segments.cumulative, cumulativeToLengths, differences, Nat.zero_add]

structure PrefillInput {α : Type*} (layer : AttnModule α) where
  query : List (Fin (layer.numHeads * layer.headSize) → α)
  key : List (Fin (layer.numKvHeads * layer.headSize) → α)
  attnMask : AttnMask
  seqLengths : CumulativeLengths
  many : 1 < query.length
  segmented : seqLengths.ends ≠ []

/-- The early returns of the hook: too few arguments, no query or key, a single token, no
context, incomplete metadata, decode tokens in the step. -/
def prefillInput (call : AttnCall α) : Option (PrefillInput call.layer) :=
  match call.args with
  | .queryKey (some query) (some key) =>
    if many : 1 < query.length then
      match call.context with
      | some (some metadata) =>
        match metadata.attnMask, metadata.actualSeqLengthsQ with
        | some attnMask, some seqLengths =>
          if segmented : seqLengths.ends ≠ [] then
            if 0 < metadata.numDecodeTokens then none
            else some { query, key, attnMask, seqLengths, many, segmented }
          else none
        | _, _ => none
      | _ => none
    else none
  | _ => none

def AttnCall.count (call : AttnCall α) : Option Nat :=
  match call.args with
  | .queryKey (some query) _ => some query.length
  | _ => none

theorem prefillInput_count {call : AttnCall α} {input : PrefillInput call.layer}
    (admitted : prefillInput call = some input) : call.count = some input.query.length := by
  unfold prefillInput at admitted
  unfold AttnCall.count
  repeat' split at admitted
  all_goals first | contradiction | skip
  cases admitted
  simp [*]

structure Measurement (α : Type*) where
  entropy : List α
  seqLengths : List Nat

def AifdState.absorb (auxId : Int) (m? : Option (Measurement α)) (s : AifdState α ρ) :
    AifdState α ρ :=
  match m? with
  | none => s
  | some m => { s with
      entropy := s.entropy.set auxId m.entropy
      seqLengths := s.seqLengths.or (some m.seqLengths) }

theorem sameSetup_absorb (auxId : Int) (m? : Option (Measurement α)) (s : AifdState α ρ) :
    SameSetup s (s.absorb auxId m?) := by
  cases m? <;> exact ⟨rfl, rfl, rfl, rfl, rfl⟩

@[simp] theorem absorb_none (auxId : Int) (s : AifdState α ρ) : s.absorb auxId none = s := rfl

/-- Two hooks under the same id, as a repeated candidate registers them, do what one does. -/
theorem absorb_absorb (auxId : Int) (m? : Option (Measurement α)) (s : AifdState α ρ) :
    (s.absorb auxId m?).absorb auxId m? = s.absorb auxId m? := by
  cases m? with
  | none => rfl
  | some m =>
    have same : (s.entropy.set auxId m.entropy).set auxId m.entropy =
        s.entropy.set auxId m.entropy := Dict.set_get? _ (Dict.get?_set_self ..)
    have kept : (s.seqLengths.or (some m.seqLengths)).or (some m.seqLengths) =
        s.seqLengths.or (some m.seqLengths) := by cases s.seqLengths <;> rfl
    simp only [AifdState.absorb, same, kept]

section Measure

variable [Field α]

/-- `H[t,h] = lse[t,h] - scale * <q[t,h,:], O^K[t,h,:]>` for one token. -/
def headEntropy {heads headDim : Nat} (scale : α) (q outK : HeadRow α heads headDim)
    (lse : Fin heads → α) (h : Fin heads) : α :=
  lse h - (∑ d, q h d * outK h d) * scale

def headMean {heads : Nat} (entropy : Fin heads → α) : α := (∑ h, entropy h) / heads

/-- The guarded computation of the hook; `none` where the operator or the layout check raises. -/
def tokenEntropy (layer : AttnModule α)
    (operator : FusedInferAttentionScore α layer.numHeads layer.numKvHeads layer.headSize)
    (input : PrefillInput layer) : Option (List α) :=
  let q := input.query.map viewHeads
  let k := input.key.map viewHeads
  match fia operator q k k layer.scale input.attnMask input.seqLengths.ends with
  | none => none
  | some output =>
    match asTn output.lse input.query.length layer.numHeads with
    | none => none
    | some lse => some <| q.mapIdx fun t row =>
        headMean (headEntropy layer.scale row (output.out t) fun h => lse t h)

def measure (call : AttnCall α) : Option (Measurement α) :=
  match prefillInput call with
  | none => none
  | some input =>
    match tokenEntropy call.layer call.npuFusedInferAttentionScore input with
    | none => none
    | some entropy => some ⟨entropy, cumulativeToLengths input.seqLengths.ends⟩

/-- The hook registered for `auxId`. The segmentation is taken from the first layer that
measures; its assertion stands outside the guarded computation, after both writes. -/
def attnHook (auxId : Int) (call : AttnCall α) (s : AifdState α ρ) :
    Outcome AifdError (AifdState α ρ) :=
  if ¬ s.enabled then .done s
  else
    match measure call with
    | none => .done s
    | some m =>
      let stored := { s with entropy := s.entropy.set auxId m.entropy }
      match stored.seqLengths with
      | some _ => .done stored
      | none =>
        let segmented := { stored with seqLengths := some m.seqLengths }
        if m.seqLengths.sum = m.entropy.length then .done segmented
        else .raised (.segmentSum m.seqLengths m.entropy.length) segmented

theorem length_tokenEntropy {layer : AttnModule α}
    {operator : FusedInferAttentionScore α layer.numHeads layer.numKvHeads layer.headSize}
    {input : PrefillInput layer} {entropy : List α}
    (computed : tokenEntropy layer operator input = some entropy) :
    entropy.length = input.query.length := by
  unfold tokenEntropy at computed
  dsimp only at computed
  repeat' split at computed
  all_goals first | contradiction | skip
  cases computed
  simp

theorem measure_eq_some {call : AttnCall α} {m : Measurement α} (measured : measure call = some m) :
    ∃ input, prefillInput call = some input ∧
      tokenEntropy call.layer call.npuFusedInferAttentionScore input = some m.entropy ∧
      m.seqLengths = cumulativeToLengths input.seqLengths.ends := by
  unfold measure at measured
  split at measured
  · contradiction
  next input admitted =>
    split at measured
    · contradiction
    next entropy computed =>
      cases measured
      exact ⟨input, admitted, computed, rfl⟩

/-- A measurement covers the tokens of its call, and there are at least two of them. -/
theorem measure_count {call : AttnCall α} {m : Measurement α} (measured : measure call = some m) :
    call.count = some m.entropy.length ∧ 1 < m.entropy.length := by
  obtain ⟨input, admitted, computed, _⟩ := measure_eq_some measured
  rw [length_tokenEntropy computed]
  exact ⟨prefillInput_count admitted, input.many⟩

@[simp] theorem attnHook_none {auxId : Int} {call : AttnCall α} (skipped : measure call = none)
    (s : AifdState α ρ) : attnHook auxId call s = .done s := by
  simp [attnHook, skipped]

@[simp] theorem attnHook_disabled {auxId : Int} {call : AttnCall α} {s : AifdState α ρ}
    (disabled : s.enabled = false) : attnHook auxId call s = .done s := by
  simp [attnHook, disabled]

theorem attnHook_some {auxId : Int} {call : AttnCall α} {m : Measurement α}
    (measured : measure call = some m) {s : AifdState α ρ} (enabled : s.enabled) :
    attnHook auxId call s =
      match s.seqLengths with
      | some _ => .done { s with entropy := s.entropy.set auxId m.entropy }
      | none =>
        let segmented := { s with
          entropy := s.entropy.set auxId m.entropy, seqLengths := some m.seqLengths }
        if m.seqLengths.sum = m.entropy.length then .done segmented
        else .raised (.segmentSum m.seqLengths m.entropy.length) segmented := by
  simp [attnHook, measured, enabled]

theorem attnHook_absorb {auxId : Int} {call : AttnCall α} {s : AifdState α ρ}
    (enabled : s.enabled)
    (fits : s.seqLengths = none → ∀ m, measure call = some m → m.seqLengths.sum = m.entropy.length) :
    attnHook auxId call s = .done (s.absorb auxId (measure call)) := by
  cases found : measure call with
  | none => rw [attnHook_none found]; rfl
  | some m =>
    rw [attnHook_some found enabled]
    cases taken : s.seqLengths with
    | some lengths => simp [AifdState.absorb, taken]
    | none => simp [AifdState.absorb, taken, fits taken m found]

end Measure

end DreamAifd
