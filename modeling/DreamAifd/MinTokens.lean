import DreamAifd.SpecDecodeMetadata

/-! A request that has too few outputs must not stop: its stop tokens are taken out of the rows it is sampled from. -/
namespace DreamAifd.SpecDecode

open Segments

/-- One row of logits, in which minus infinity may stand. -/
abbrev Row (vocabSize : Nat) := Fin vocabSize → WithBot ℚ

variable {vocabSize : Nat}

def mask (tokenIds : List Int) (row : Row vocabSize) : Row vocabSize :=
  fun token => if tokenIds.contains (token.val : Int) then ⊥ else row token

theorem put_eq_mask (few : Prop) [Decidable few] (tokenIds : List Int) (row : Row vocabSize) :
    (fun token : Fin vocabSize => if decide few && tokenIds.contains (token.val : Int) then ⊥ else row token) =
      if few then mask tokenIds row else row := by
  by_cases holds : few
  · simp only [holds, decide_true, Bool.true_and, if_true]
    rfl
  · simp [holds]

def indexPut (put : Nat → Int → Bool) (logits : List (Row vocabSize)) : List (Row vocabSize) :=
  logits.mapIdx fun i row token => if put i token.val then ⊥ else row token

theorem getElem?_indexPut (put : Nat → Int → Bool) (logits : List (Row vocabSize)) (i : Nat) :
    (indexPut put logits)[i]? = logits[i]?.map fun row token => if put i token.val then ⊥ else row token :=
  List.getElem?_mapIdx

@[simp] theorem length_indexPut (put : Nat → Int → Bool) (logits : List (Row vocabSize)) :
    (indexPut put logits).length = logits.length :=
  List.length_mapIdx

structure MinTokens where
  minTokens : Nat
  numOutputTokens : Nat
  allStopTokenIds : List Int

namespace MinTokensLogitsProcessor

variable (minToks : List MinTokens) (numDraftTokens : List Nat)

/-- `apply`, to one row for every request. -/
def apply (logits : List (Row vocabSize)) : List (Row vocabSize) :=
  indexPut (fun reqIdx token => minToks[reqIdx]?.any fun entry =>
    decide (entry.numOutputTokens < entry.minTokens) && entry.allStopTokenIds.contains token) logits

/-- `apply_with_spec_decode`, to one row for every draft: the first ones of a request, up to the one where it has
outputs enough. -/
def applyWithSpecDecode (logits : List (Row vocabSize)) : List (Row vocabSize) :=
  indexPut (fun row token => minToks.zipIdx.any fun (entry, reqIdx) =>
    let nMask := min (entry.minTokens - entry.numOutputTokens) (numDraftTokens.getD reqIdx 0)
    let offset := start numDraftTokens reqIdx
    decide (offset ≤ row ∧ row < offset + nMask) && entry.allStopTokenIds.contains token) logits

variable {minToks numDraftTokens}

@[simp] theorem length_apply (logits : List (Row vocabSize)) : (apply minToks logits).length = logits.length :=
  length_indexPut ..

theorem getElem?_apply (logits : List (Row vocabSize)) {k : Nat} (hk : k < minToks.length) :
    (apply minToks logits)[k]? = logits[k]?.map fun row =>
      if minToks[k].numOutputTokens < minToks[k].minTokens then mask minToks[k].allStopTokenIds row else row := by
  rw [apply, getElem?_indexPut]
  refine congrArg (Option.map · _) (funext fun row => ?_)
  simp only [List.getElem?_eq_getElem hk, Option.any_some]
  exact put_eq_mask (minToks[k].numOutputTokens < minToks[k].minTokens) minToks[k].allStopTokenIds row

/-- The rows of a request are masked for its own stop tokens. -/
theorem getElem?_applyWithSpecDecode (logits : List (Row vocabSize)) {k j : Nat} (hk : k < minToks.length)
    (own : j < numDraftTokens.getD k 0) :
    (applyWithSpecDecode minToks numDraftTokens logits)[start numDraftTokens k + j]? =
      logits[start numDraftTokens k + j]?.map fun row =>
        if j < minToks[k].minTokens - minToks[k].numOutputTokens then mask minToks[k].allStopTokenIds row else row := by
  rw [applyWithSpecDecode, getElem?_indexPut]
  refine congrArg (Option.map · _) (funext fun row => Eq.trans (funext fun token => ?_)
    (put_eq_mask (j < minToks[k].minTokens - minToks[k].numOutputTokens) minToks[k].allStopTokenIds row))
  have put : (minToks.zipIdx.any fun (entry, reqIdx) =>
      decide (start numDraftTokens reqIdx ≤ start numDraftTokens k + j ∧ start numDraftTokens k + j <
        start numDraftTokens reqIdx + min (entry.minTokens - entry.numOutputTokens) (numDraftTokens.getD reqIdx 0)) &&
        entry.allStopTokenIds.contains (token.val : Int)) =
      (decide (j < minToks[k].minTokens - minToks[k].numOutputTokens) &&
        minToks[k].allStopTokenIds.contains (token.val : Int)) := by
    rw [Bool.eq_iff_iff, List.any_eq_true, Bool.and_eq_true, decide_eq_true_iff]
    constructor
    · rintro ⟨⟨entry, reqIdx⟩, member, put⟩
      obtain ⟨inside, stops⟩ := Bool.and_eq_true_iff.mp put
      obtain ⟨after, before⟩ := of_decide_eq_true inside
      have bounded := Nat.min_le_right (entry.minTokens - entry.numOutputTokens) (numDraftTokens.getD reqIdx 0)
      obtain rfl : reqIdx = k := start_unique after (by omega) (Nat.le_add_right _ j) (by omega)
      obtain rfl : entry = minToks[reqIdx] := (List.mem_zipIdx' member).2
      exact ⟨by omega, stops⟩
    · rintro ⟨few, stops⟩
      refine ⟨(minToks[k], k), List.mk_mem_zipIdx_iff_getElem?.mpr (List.getElem?_eq_getElem hk), ?_⟩
      rw [Bool.and_eq_true, decide_eq_true_iff]
      exact ⟨⟨Nat.le_add_right .., by omega⟩, stops⟩
  dsimp only at put ⊢
  rw [put]

end MinTokensLogitsProcessor

end DreamAifd.SpecDecode
