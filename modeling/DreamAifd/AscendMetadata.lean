import DreamAifd.AttnHook

/-! The attention metadata of one scheduler step. The builder counts the requests in front of
the first long query as decoding, whatever they are, and the hooks measure only in steps
without such a count. -/
namespace DreamAifd

open Segments

structure BatchSplit where
  numDecodes : Nat
  numPrefills : Nat
  numDecodeTokens : Nat
  numPrefillTokens : Nat
  deriving DecidableEq, Repr

/-- Boundary between decodes and prefills, in the order in which the requests come. -/
def splitDecodesAndPrefills (queryLens : List Nat) (decodeThreshold : Nat) : BatchSplit :=
  let numReqs := queryLens.length
  let numTokens := queryLens.sum
  let maxQueryLen := queryLens.foldr max 0
  match queryLens with
  | [] => ⟨0, 0, 0, 0⟩
  | first :: rest =>
    if maxQueryLen ≤ decodeThreshold then ⟨numReqs, 0, numTokens, 0⟩
    else if decodeThreshold < first then ⟨0, numReqs, 0, numTokens⟩
    else
      match (first :: rest).findIdx? (decodeThreshold < ·) with
      | none => ⟨numReqs, 0, numTokens, 0⟩
      | some firstPrefill =>
        let numDecodeTokens := ((first :: rest).take firstPrefill).sum
        ⟨firstPrefill, numReqs - firstPrefill, numDecodeTokens, numTokens - numDecodeTokens⟩

def decodeThreshold (numSpeculativeTokens : Option Nat) : Nat := 1 + numSpeculativeTokens.getD 0

def splitfuseAttnMask : AttnMask := fun query key => decide (query < key)

/-- `AscendAttentionMetadataBuilder.build`, as far as the hooks read its result. -/
def buildMetadata (threshold : Nat) (queryLens : List Nat) : AttnMetadata where
  attnMask := some splitfuseAttnMask
  actualSeqLengthsQ := some (.of queryLens)
  numDecodeTokens := (splitDecodesAndPrefills queryLens threshold).numDecodeTokens

theorem le_foldr_max {queryLens : List Nat} {n : Nat} (member : n ∈ queryLens) :
    n ≤ queryLens.foldr max 0 := by
  induction queryLens with
  | nil => simp at member
  | cons first rest ih =>
    rcases List.mem_cons.mp member with rfl | later
    · exact le_max_left _ _
    · exact (ih later).trans (le_max_right _ _)

/-- A step counts no decode tokens exactly when a long query comes first. -/
theorem numDecodeTokens_eq_zero_iff {queryLens : List Nat} (some_request : queryLens ≠ [])
    (positive : ∀ n ∈ queryLens, 0 < n) (threshold : Nat) :
    (splitDecodesAndPrefills queryLens threshold).numDecodeTokens = 0 ↔
      threshold < queryLens.headD 0 := by
  obtain ⟨first, rest, rfl⟩ := List.exists_cons_of_ne_nil some_request
  have low : 0 < first := positive first (by simp)
  simp only [splitDecodesAndPrefills, List.headD_cons]
  split
  next short =>
    have := (le_foldr_max (List.mem_cons_self (a := first) (l := rest))).trans short
    simp only [List.sum_cons]
    omega
  next =>
    by_cases long : threshold < first
    · rw [if_pos long]
      simp [long]
    · have miss : decide (threshold < first) = false := decide_eq_false long
      rw [if_neg long, List.findIdx?_cons, miss]
      simp only [Bool.false_eq_true, if_false]
      cases rest.findIdx? (threshold < ·) with
      | none =>
        simp only [Option.map_none, List.sum_cons]
        omega
      | some firstPrefill =>
        simp only [Option.map_some, List.take_succ_cons, List.sum_cons]
        omega

/-- A step of one request counts decode tokens unless the request is long. -/
theorem numDecodeTokens_single {n : Nat} (positive : 0 < n) (threshold : Nat) :
    (splitDecodesAndPrefills [n] threshold).numDecodeTokens = 0 ↔ threshold < n :=
  numDecodeTokens_eq_zero_iff (by simp) (by simpa using positive) threshold

end DreamAifd
