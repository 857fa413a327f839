import Mathlib

/-! Packing documents into one training sample: their rows one after the other in a buffer of
fixed length, cut where it is full and padded with zeros, and the id of every position's
document, -1 for padding. -/
namespace DreamAifd.Collate

/-- The rows written into the buffer before it is full. -/
def fillBuffer {α : Type*} (maxLen : Nat) (written : List α) : List (List α) → List α
  | [] => written
  | tensor :: batch =>
    let written := written ++ tensor.take (min tensor.length (maxLen - written.length))
    if written.length = maxLen then written else fillBuffer maxLen written batch

def collateRows {α : Type*} [Zero α] (maxLen : Nat) (batch : List (List α)) : List α :=
  let written := fillBuffer maxLen [] batch
  written ++ List.replicate (maxLen - written.length) 0

def newLengths (maxLen cumLength : Nat) : List Nat → List Nat
  | [] => []
  | length :: lengths =>
    if maxLen ≤ length + cumLength then [maxLen - cumLength]
    else length :: newLengths maxLen (cumLength + length) lengths

def repeatInterleave (first : Nat) : List Nat → List Int
  | [] => []
  | length :: lengths => List.replicate length (first : Int) ++ repeatInterleave (first + 1) lengths

def collateDocumentIds (maxLen : Nat) (lengths : List Nat) : List Int :=
  let documentIds := repeatInterleave 0 (newLengths maxLen 0 lengths)
  documentIds ++ List.replicate (maxLen - documentIds.length) (-1)

theorem fillBuffer_eq {α : Type*} {maxLen : Nat} {written : List α} (room : written.length ≤ maxLen)
    (batch : List (List α)) : fillBuffer maxLen written batch = (written ++ batch.flatten).take maxLen := by
  induction batch generalizing written with
  | nil => rw [fillBuffer, List.flatten_nil, List.append_nil, List.take_of_length_le room]
  | cons tensor batch ih =>
    have cut : tensor.take (min tensor.length (maxLen - written.length)) =
        tensor.take (maxLen - written.length) := by
      rw [Nat.min_comm, ← List.take_take, List.take_length]
    have within : (written ++ tensor.take (maxLen - written.length)).length ≤ maxLen := by
      rw [List.length_append, List.length_take]
      omega
    rw [fillBuffer, cut, List.flatten_cons, ← List.append_assoc]
    split
    next full =>
      rw [List.append_assoc, List.take_append, List.take_of_length_le room, List.take_append]
      rw [List.length_append, List.length_take] at full
      have closed : maxLen - written.length - tensor.length = 0 := by omega
      rw [closed, List.take_zero, List.append_nil]
    next open_ =>
      rw [List.length_append, List.length_take] at open_
      have whole : tensor.length ≤ maxLen - written.length := by omega
      rw [ih within, List.take_of_length_le whole]

theorem sum_newLengths {maxLen cumLength : Nat} (room : cumLength ≤ maxLen) (lengths : List Nat) :
    (newLengths maxLen cumLength lengths).sum = min lengths.sum (maxLen - cumLength) := by
  induction lengths generalizing cumLength with
  | nil => simp [newLengths]
  | cons length lengths ih =>
    rw [newLengths, List.sum_cons]
    split
    next => simp only [List.sum_singleton]; omega
    next fits =>
      rw [List.sum_cons, ih (by omega)]
      omega

theorem length_repeatInterleave (first : Nat) (lengths : List Nat) :
    (repeatInterleave first lengths).length = lengths.sum := by
  induction lengths generalizing first with
  | nil => rfl
  | cons length lengths ih => rw [repeatInterleave, List.length_append, List.length_replicate, ih, List.sum_cons]

theorem le_of_mem_repeatInterleave {first : Nat} {lengths : List Nat} {id : Int}
    (member : id ∈ repeatInterleave first lengths) : (first : Int) ≤ id := by
  induction lengths generalizing first with
  | nil => exact absurd member List.not_mem_nil
  | cons length lengths ih =>
    rcases List.mem_append.mp member with now | later
    · exact (List.eq_of_mem_replicate now).ge
    · have bound := ih later
      push_cast at bound
      omega

theorem repeatInterleave_sorted (first : Nat) (lengths : List Nat) :
    (repeatInterleave first lengths).Pairwise (· ≤ ·) := by
  induction lengths generalizing first with
  | nil => exact List.Pairwise.nil
  | cons length lengths ih =>
    apply List.pairwise_append.mpr
    refine ⟨List.pairwise_replicate.mpr (.inr le_rfl), ih _, ?_⟩
    intro now here later there
    have bound := le_of_mem_repeatInterleave there
    rw [List.eq_of_mem_replicate here]
    push_cast at bound
    omega

@[simp] theorem length_collateRows {α : Type*} [Zero α] (maxLen : Nat) (batch : List (List α)) :
    (collateRows maxLen batch).length = maxLen := by
  have room : ([] : List α).length ≤ maxLen := Nat.zero_le maxLen
  have size := List.length_take_le maxLen batch.flatten
  rw [collateRows, fillBuffer_eq room, List.nil_append, List.length_append, List.length_replicate]
  omega

/-- Cutting the lengths cuts the ids. -/
theorem repeatInterleave_newLengths {maxLen cumLength : Nat} (room : cumLength ≤ maxLen) (first : Nat)
    (lengths : List Nat) : repeatInterleave first (newLengths maxLen cumLength lengths) =
      (repeatInterleave first lengths).take (maxLen - cumLength) := by
  induction lengths generalizing first cumLength with
  | nil => simp [newLengths, repeatInterleave]
  | cons length lengths ih =>
    rw [newLengths, repeatInterleave, List.take_append, List.length_replicate, List.take_replicate]
    split
    next cut =>
      have last : maxLen - cumLength ≤ length := by omega
      rw [Nat.min_eq_left last, Nat.sub_eq_zero_of_le last]
      simp [repeatInterleave]
    next fits =>
      have whole : length ≤ maxLen - cumLength := by omega
      rw [repeatInterleave, Nat.min_eq_right whole, ih (by omega), Nat.sub_sub]

/-- A position counts the earlier positions of its document. -/
theorem flatten_range (first : Nat) (lengths : List Nat) (i : Nat) :
    (lengths.map List.range).flatten[i]? = (repeatInterleave first lengths)[i]?.map fun id =>
      ((repeatInterleave first lengths).take i).count id := by
  induction lengths generalizing first i with
  | nil => rfl
  | cons length lengths ih =>
    rw [List.map_cons, List.flatten_cons, repeatInterleave]
    rcases Nat.lt_or_ge i length with here | later
    · rw [List.getElem?_append_left (by rwa [List.length_range]),
        List.getElem?_append_left (by rwa [List.length_replicate]), List.getElem?_range here,
        List.getElem?_replicate, if_pos here, List.take_append_of_le_length (by simpa using here.le)]
      simp [List.take_replicate, here.le]
    · rw [List.getElem?_append_right (by rwa [List.length_range]),
        List.getElem?_append_right (by rwa [List.length_replicate]), List.length_range, List.length_replicate,
        ih (first + 1), List.take_append, List.length_replicate, List.take_replicate, Nat.min_eq_right later]
      apply Option.map_congr
      intro id held
      have above := le_of_mem_repeatInterleave (List.mem_of_getElem? held)
      have other : id ≠ (first : Int) := by
        push_cast at above
        omega
      rw [List.count_append, List.count_replicate]
      simp [Ne.symm other]

/-- The position ids of packed documents are determined by the document ids. -/
theorem collate_positions (maxLen : Nat) (lengths : List Nat) (i : Nat) :
    (collateRows maxLen (lengths.map List.range))[i]? = (collateDocumentIds maxLen lengths)[i]?.map fun id =>
      if id = -1 then 0 else ((collateDocumentIds maxLen lengths).take i).count id := by
  have room : ([] : List Nat).length ≤ maxLen := Nat.zero_le maxLen
  have ids := repeatInterleave_newLengths (Nat.zero_le maxLen) 0 lengths
  have size : ((lengths.map List.range).flatten.take maxLen).length =
      ((repeatInterleave 0 lengths).take maxLen).length := by
    simp [length_repeatInterleave, List.length_flatten, Function.comp_def]
  rw [Nat.sub_zero] at ids
  rw [collateRows, fillBuffer_eq room, collateDocumentIds, ids, List.nil_append]
  rcases Nat.lt_or_ge i ((repeatInterleave 0 lengths).take maxLen).length with used | padded
  · have cut : i < maxLen := used.trans_le (List.length_take_le _ _)
    rw [List.getElem?_append_left (size ▸ used), List.getElem?_append_left used,
      List.take_append_of_le_length used.le, List.take_take, Nat.min_eq_left cut.le,
      List.getElem?_take_of_lt cut, List.getElem?_take_of_lt cut, flatten_range 0]
    apply Option.map_congr
    intro id held
    have document := le_of_mem_repeatInterleave (List.mem_of_getElem? held)
    have padding : id ≠ -1 := by
      push_cast at document
      omega
    rw [if_neg padding]
  · rw [List.getElem?_append_right (size ▸ padded), List.getElem?_append_right padded, size,
      List.getElem?_replicate, List.getElem?_replicate]
    split <;> rfl

/-- The document ids of a packed sample ascend up to its padding, which is not trained on. -/
structure PackedSample where
  documentIds : List Int
  lossMask : List ℚ
  packed : ∃ used mask padding, documentIds = used ++ List.replicate padding (-1) ∧
    lossMask = mask ++ List.replicate padding 0 ∧ mask.length = used.length ∧
    used.Pairwise (· ≤ ·) ∧ ∀ id ∈ used, 0 ≤ id

def collate (maxLen : Nat) (batch : List (List ℚ)) : PackedSample where
  documentIds := collateDocumentIds maxLen (batch.map List.length)
  lossMask := collateRows maxLen batch
  packed := by
    have room : ([] : List ℚ).length ≤ maxLen := Nat.zero_le maxLen
    have written := fillBuffer_eq room batch
    have size : (fillBuffer maxLen [] batch).length =
        (repeatInterleave 0 (newLengths maxLen 0 (batch.map List.length))).length := by
      rw [written, List.nil_append, List.length_take, List.length_flatten, length_repeatInterleave,
        sum_newLengths (Nat.zero_le _), Nat.sub_zero, Nat.min_comm]
    exact ⟨_, _, _, rfl, by rw [← size]; rfl, size, repeatInterleave_sorted _ _,
      fun id member => le_of_mem_repeatInterleave member⟩

namespace PackedSample

variable {batch : PackedSample}

/-- A trained position belongs to a document. -/
theorem trained_id {j : Nat} (trained : batch.lossMask.getD j 0 ≠ 0) :
    ∃ id, batch.documentIds[j]? = some id ∧ 0 ≤ id := by
  obtain ⟨used, mask, padding, ids, masked, size, -, nonneg⟩ := batch.packed
  have inside : j < used.length := by
    by_contra outside
    apply trained
    rw [masked, List.getD_append_right _ _ _ _ (by omega)]
    rw [List.getD_eq_getElem?_getD, List.getElem?_replicate]
    split <;> rfl
  refine ⟨used[j], ?_, nonneg _ (List.getElem_mem inside)⟩
  rw [ids, List.getElem?_append_left inside, List.getElem?_eq_getElem inside]

/-- The ids in front of a document's position are no greater. -/
theorem ordered {i j : Nat} (before : i ≤ j) {id : Int} (given : batch.documentIds[j]? = some id)
    (document : 0 ≤ id) : ∃ earlier, batch.documentIds[i]? = some earlier ∧ 0 ≤ earlier ∧ earlier ≤ id := by
  obtain ⟨used, mask, padding, ids, -, -, sorted, nonneg⟩ := batch.packed
  rw [ids] at given ⊢
  have inside : j < used.length := by
    by_contra outside
    rw [List.getElem?_append_right (by omega), List.getElem?_replicate] at given
    split at given
    · have padded := Option.some.inj given
      omega
    · exact absurd given (Option.some_ne_none id).symm
  have earlier : i < used.length := before.trans_lt inside
  rw [List.getElem?_append_left inside, List.getElem?_eq_getElem inside] at given
  refine ⟨used[i], ?_, nonneg _ (List.getElem_mem earlier), ?_⟩
  · rw [List.getElem?_append_left earlier, List.getElem?_eq_getElem earlier]
  · rw [← Option.some.inj given]
    rcases before.lt_or_eq with less | rfl
    · exact List.pairwise_iff_getElem.mp sorted i j earlier inside less
    · exact le_rfl

end PackedSample

end DreamAifd.Collate
