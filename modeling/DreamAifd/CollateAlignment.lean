import DreamAifd.Collate
import DreamAifd.Segments

/-! Where the rows of a collated batch come from. The rows of every key and the document ids are
laid out by loops of their own, which agree on where each document starts and where it is cut. -/
namespace DreamAifd.Collate

open Segments

/-- The keys of a sample that hold a row for every token. -/
inductive Key where
  | hiddenStates
  | inputIds
  | verifierLastHiddenStates
  | lossMask
  | positionIds
  | aifdHiddenStates
  deriving DecidableEq, Repr

instance : Fintype Key := .ofList
  [.hiddenStates, .inputIds, .verifierLastHiddenStates, .lossMask, .positionIds, .aifdHiddenStates]
  (by rintro (_ | _) <;> simp)

def Key.isHiddenStates : Key → Bool
  | .hiddenStates | .verifierLastHiddenStates | .aifdHiddenStates => true
  | .inputIds | .lossMask | .positionIds => false

variable {Row : Key → Type*}

/-- A sample of the dataset. All of its keys are equally long; only the AIFD key may be absent. -/
structure Sample (Row : Key → Type*) where
  rows : ∀ key, Option (List (Row key))
  length : Nat
  required : ∀ key, key ≠ .aifdHiddenStates → (rows key).isSome
  aligned : ∀ key tensor, rows key = some tensor → tensor.length = length

def createEmptySample (aifd : Bool) : Sample Row where
  rows key := if key = .aifdHiddenStates ∧ ¬ aifd then none else some []
  length := 0
  required key other := by simp [other]
  aligned key tensor held := by
    split at held
    · contradiction
    · cases held
      rfl

/-- Rows of one key after the shift: the features lose their last row, what is predicted its first. -/
def shiftRows {α : Type*} (key : Key) (tensor : List α) : List α :=
  match key with
  | .hiddenStates => tensor.dropLast
  | _ => tensor.drop 1

/-- The shifted sample does not keep the AIFD key. -/
def shiftBatch (batch : Sample Row) : Sample Row where
  rows key := if key = .aifdHiddenStates then none else (batch.rows key).map (shiftRows key)
  length := batch.length - 1
  required key other := by
    rw [if_neg other, Option.isSome_map]
    exact batch.required key other
  aligned key tensor held := by
    split at held
    · contradiction
    · obtain ⟨own, given, rfl⟩ := Option.map_eq_some_iff.mp held
      rw [← batch.aligned key own given]
      cases key <;> simp [shiftRows]

structure CollateConfig (Row : Key → Type*) where
  maxLen : Nat
  /-- Conversion of a hidden-states row to the configured `dtype`. -/
  toDtype : ∀ key, Row key → Row key
  aifd : Bool

structure CollatedBatch (Row : Key → Type*) where
  rows : ∀ key, Option (List (Row key))
  documentIds : List Int

def surviving (preprocess : Option (Sample Row → Sample Row)) (batch : List (Option (Sample Row))) :
    List (Sample Row) :=
  batch.filterMap (Option.map (preprocess.getD id))

namespace CollateConfig

variable (config : CollateConfig Row)

/-- What a row becomes when it is written into the buffer of its key. -/
def written (key : Key) (row : Row key) : Row key :=
  if key.isHiddenStates then config.toDtype key row else row

/-- The rows of one key as long as the buffer is not full. A sample without the key raises when it is read. -/
def fillKey (key : Key) (out : List (Row key)) : List (Sample Row) → Option (List (Row key))
  | [] => some out
  | b :: batch => do
    let tensor ← b.rows key
    let out := out ++ (tensor.take (min tensor.length (config.maxLen - out.length))).map (config.written key)
    if out.length = config.maxLen then some out else fillKey key out batch

variable [∀ key, Zero (Row key)]

def stack (batch : List (Sample Row)) (key : Key) : Option (List (Row key)) :=
  (config.fillKey key [] batch).map fun out => out ++ List.replicate (config.maxLen - out.length) 0

/-- The loops over a list that is not empty: the keys are those of the first sample. -/
def collateSamples : List (Sample Row) → Option (CollatedBatch Row)
  | [] => none
  | first :: rest =>
    if ∀ key, (first.rows key).isSome → (config.stack (first :: rest) key).isSome then
      some {
        rows := fun key => (first.rows key).bind fun _ => config.stack (first :: rest) key
        documentIds := collateDocumentIds config.maxLen ((first :: rest).map Sample.length) }
    else none

def collateFn (preprocess : Option (Sample Row → Sample Row)) (batch : List (Option (Sample Row))) :
    Option (CollatedBatch Row) :=
  match surviving preprocess batch with
  | [] => config.collateSamples [preprocess.getD id (createEmptySample config.aifd)]
  | first :: rest => config.collateSamples (first :: rest)

end CollateConfig

section Layout

theorem getElem?_padded {α : Type*} (xs : List α) (n : Nat) (fill : α) (p : Nat) :
    (xs.take n ++ List.replicate (n - xs.length) fill)[p]? = if p < n then some (xs.getD p fill) else none := by
  rw [List.getElem?_append, List.length_take, List.getElem?_replicate, List.getD_eq_getElem?_getD]
  rcases Nat.lt_or_ge p n with inside | outside
  · rw [if_pos inside]
    split
    next held =>
      rw [List.getElem?_take_of_lt inside, List.getElem?_eq_getElem (by omega)]
      rfl
    next open_ =>
      rw [if_pos (by omega), List.getElem?_eq_none (by omega)]
      rfl
  · rw [if_neg (by omega), if_neg (by omega), if_neg (by omega)]

theorem getElem?_collateRows {α : Type*} [Zero α] (maxLen : Nat) (batch : List (List α)) (p : Nat) :
    (collateRows maxLen batch)[p]? = if p < maxLen then some (batch.flatten.getD p 0) else none := by
  have room : ([] : List α).length ≤ maxLen := Nat.zero_le maxLen
  rw [collateRows, fillBuffer_eq room, List.nil_append, List.length_take, tsub_min, getElem?_padded]

theorem getElem?_collateDocumentIds (maxLen : Nat) (lengths : List Nat) (p : Nat) :
    (collateDocumentIds maxLen lengths)[p]? =
      if p < maxLen then some ((repeatInterleave 0 lengths).getD p (-1)) else none := by
  have ids := repeatInterleave_newLengths (Nat.zero_le maxLen) 0 lengths
  rw [Nat.sub_zero] at ids
  rw [collateDocumentIds, ids, List.length_take, tsub_min, getElem?_padded]

theorem getD_repeatInterleave (first : Nat) (lengths : List Nat) {k i : Nat} (hk : k < lengths.length)
    (inside : i < lengths[k]) (default : Int) :
    (repeatInterleave first lengths).getD (start lengths k + i) default = ((first + k : Nat) : Int) := by
  induction lengths generalizing first k with
  | nil => simp at hk
  | cons n lengths ih =>
    rw [repeatInterleave]
    cases k with
    | zero =>
      have within : i < n := inside
      rw [start, List.take_zero, List.sum_nil, Nat.zero_add, List.getD_append _ _ _ _ (by simpa)]
      simp [within]
    | succ k =>
      rw [List.getD_append_right _ _ _ _ (by simp [start, Nat.add_assoc]), List.length_replicate]
      have shift : start (n :: lengths) (k + 1) + i - n = start lengths k + i := by
        simp only [start, List.take_succ_cons, List.sum_cons]
        omega
      rw [shift, ih (first + 1) (by simpa using hk) (by simpa using inside)]
      congr 1
      omega

/-- The positions of document `d`: its rows from its start on, as far as the buffer goes. -/
theorem collateDocumentIds_eq_some_iff (maxLen : Nat) (lengths : List Nat) {d : Nat} (hd : d < lengths.length)
    (p : Nat) : (collateDocumentIds maxLen lengths)[p]? = some (d : Int) ↔
      start lengths d ≤ p ∧ p < min (start lengths d + lengths[d]) maxLen := by
  rw [getElem?_collateDocumentIds, Nat.lt_min]
  constructor
  · intro found
    split at found
    next inside =>
      have entry := Option.some.inj found
      have within : p < lengths.sum := by
        by_contra outside
        rw [List.getD_eq_default _ _ (by rw [length_repeatInterleave]; omega)] at entry
        omega
      obtain ⟨k, hk, i, own, rfl⟩ := exists_segment lengths within
      rw [getD_repeatInterleave 0 lengths hk own] at entry
      obtain rfl : k = d := by omega
      omega
    next => contradiction
  · rintro ⟨after, before, inside⟩
    obtain ⟨i, rfl⟩ := Nat.exists_eq_add_of_le after
    rw [if_pos inside, getD_repeatInterleave 0 lengths hd (by omega), Nat.zero_add]

theorem collateDocumentIds_eq_padding_iff (maxLen : Nat) (lengths : List Nat) (p : Nat) :
    (collateDocumentIds maxLen lengths)[p]? = some (-1) ↔ lengths.sum ≤ p ∧ p < maxLen := by
  rw [getElem?_collateDocumentIds]
  constructor
  · intro found
    split at found
    next inside =>
      refine ⟨?_, inside⟩
      by_contra within
      obtain ⟨k, hk, i, own, rfl⟩ := exists_segment lengths (Nat.lt_of_not_le within)
      have entry := Option.some.inj found
      rw [getD_repeatInterleave 0 lengths hk own] at entry
      omega
    next => contradiction
  · rintro ⟨behind, inside⟩
    rw [if_pos inside, List.getD_eq_default _ _ (by rwa [length_repeatInterleave])]

/-- Every position carries the id of a document, or -1. -/
theorem collateDocumentIds_cases {maxLen : Nat} {lengths : List Nat} {p : Nat} {id : Int}
    (found : (collateDocumentIds maxLen lengths)[p]? = some id) :
    id = -1 ∨ ∃ d < lengths.length, id = (d : Int) := by
  rw [getElem?_collateDocumentIds] at found
  split at found
  next inside =>
    rcases Nat.lt_or_ge p lengths.sum with within | behind
    · obtain ⟨k, hk, i, own, rfl⟩ := exists_segment lengths within
      rw [getD_repeatInterleave 0 lengths hk own, Nat.zero_add] at found
      exact .inr ⟨k, hk, (Option.some.inj found).symm⟩
    · rw [List.getD_eq_default _ _ (by rwa [length_repeatInterleave])] at found
      exact .inl (Option.some.inj found).symm
  next => contradiction

end Layout

/-- The layout of a batch collated from some samples: document `d` takes the positions from its
start on that are left in the buffer, each of them with its own row under every key; behind the
documents everything is padding. -/
structure Aligned [∀ key, Zero (Row key)] (config : CollateConfig Row) (samples : List (Sample Row))
    (collated : CollatedBatch Row) : Prop where
  ids : ∀ d (hd : d < samples.length), ∀ p, collated.documentIds[p]? = some (d : Int) ↔
    start (samples.map Sample.length) d ≤ p ∧
      p < min (start (samples.map Sample.length) d + samples[d].length) config.maxLen
  padding : ∀ p, collated.documentIds[p]? = some (-1) ↔
    (samples.map Sample.length).sum ≤ p ∧ p < config.maxLen
  only : ∀ (p : Nat) id, collated.documentIds[p]? = some id → id = -1 ∨ ∃ d < samples.length, id = (d : Int)
  rows : ∀ key (tensor : List (Row key)), collated.rows key = some tensor →
    tensor.length = config.maxLen ∧
    (∀ d (hd : d < samples.length), ∀ p : Nat, collated.documentIds[p]? = some (d : Int) →
      ∃ own row, samples[d].rows key = some own ∧
        own[p - start (samples.map Sample.length) d]? = some row ∧
        tensor[p]? = some (config.written key row)) ∧
    ∀ p : Nat, collated.documentIds[p]? = some (-1) → tensor[p]? = some 0

/-- The samples a loop over some key reads: the first one, and others while the buffer is not full. -/
def Read (maxLen : Nat) (samples : List (Sample Row)) (d : Nat) : Prop :=
  d = 0 ∨ start (samples.map Sample.length) d < maxLen

theorem read_succ_iff {room : Nat} {b : Sample Row} {batch : List (Sample Row)} (open_ : b.length < room) (d : Nat) :
    Read room (b :: batch) (d + 1) ↔ Read (room - b.length) batch d := by
  have shift : start ((b :: batch).map Sample.length) (d + 1) = b.length + start (batch.map Sample.length) d := by
    simp [start]
  rw [Read, Read, shift]
  constructor
  · rintro (impossible | inside)
    · exact absurd impossible (Nat.succ_ne_zero d)
    · exact .inr (by omega)
  · rintro (rfl | inside)
    · exact .inr (by simpa [start] using open_)
    · exact .inr (by omega)

theorem not_read_succ {room : Nat} {b : Sample Row} {batch : List (Sample Row)} (full : room ≤ b.length) (d : Nat) :
    ¬Read room (b :: batch) (d + 1) := by
  rintro (impossible | inside)
  · exact absurd impossible (Nat.succ_ne_zero d)
  · simp only [start, List.map_cons, List.take_succ_cons, List.sum_cons] at inside
    omega

namespace CollateConfig

variable {config : CollateConfig Row} [∀ key, Zero (Row key)]

/-- The rows of a sample under a key; what stands for a sample without the key is never read. -/
def tensorOf (config : CollateConfig Row) (key : Key) (b : Sample Row) : List (Row key) :=
  ((b.rows key).getD (List.replicate b.length 0)).map (config.written key)

theorem lengths_tensorOf (key : Key) (samples : List (Sample Row)) :
    (samples.map (config.tensorOf key)).map List.length = samples.map Sample.length := by
  rw [List.map_map]
  refine List.map_congr_left fun b _ => ?_
  rw [Function.comp_apply, tensorOf, List.length_map]
  cases given : b.rows key with
  | none => exact List.length_replicate
  | some own => exact b.aligned key own given

/-- The loop over the samples returns when all that it reads have the key. -/
theorem fillKey_eq {key : Key} {out : List (Row key)} (room : out.length ≤ config.maxLen) {batch : List (Sample Row)}
    (held : ∀ d (hd : d < batch.length), Read (config.maxLen - out.length) batch d → (batch[d].rows key).isSome) :
    config.fillKey key out batch = some (fillBuffer config.maxLen out (batch.map (config.tensorOf key))) := by
  induction batch generalizing out with
  | nil => rfl
  | cons b batch ih =>
    obtain ⟨tensor, given⟩ := Option.isSome_iff_exists.mp (held 0 (Nat.succ_pos _) (.inl rfl))
    have given : b.rows key = some tensor := given
    have size := b.aligned key tensor given
    have same : (tensor.take (min tensor.length (config.maxLen - out.length))).map (config.written key) =
        (config.tensorOf key b).take (min (config.tensorOf key b).length (config.maxLen - out.length)) := by
      simp [tensorOf, given]
    rw [fillKey, given, Option.bind_eq_bind, Option.bind_some, List.map_cons, fillBuffer, same]
    dsimp only
    split
    next => rfl
    next open_ =>
      have cut : ((config.tensorOf key b).take (min (config.tensorOf key b).length (config.maxLen - out.length))).length =
          min b.length (config.maxLen - out.length) := by
        rw [← same, List.length_map, List.length_take, size]
        omega
      rw [List.length_append, cut] at open_
      apply ih
      · rw [List.length_append, cut]
        omega
      · intro d hd read
        refine held (d + 1) (Nat.succ_lt_succ hd) ((read_succ_iff (by omega) d).mpr ?_)
        rwa [List.length_append, cut, show config.maxLen - (out.length + min b.length (config.maxLen - out.length)) =
          config.maxLen - out.length - b.length by omega] at read

omit [∀ key, Zero (Row key)] in
theorem held_of_fillKey {key : Key} {out : List (Row key)} (room : out.length ≤ config.maxLen)
    {batch : List (Sample Row)} (returned : (config.fillKey key out batch).isSome) (d : Nat) (hd : d < batch.length)
    (read : Read (config.maxLen - out.length) batch d) : (batch[d].rows key).isSome := by
  induction batch generalizing out d with
  | nil => exact absurd hd (Nat.not_lt_zero d)
  | cons b batch ih =>
    rw [fillKey] at returned
    cases given : b.rows key with
    | none =>
      rw [given] at returned
      exact absurd returned (by simp)
    | some tensor =>
      have size := b.aligned key tensor given
      cases d with
      | zero =>
        rw [List.getElem_cons_zero, given]
        rfl
      | succ d =>
        rw [given, Option.bind_eq_bind, Option.bind_some] at returned
        rcases Nat.lt_or_ge b.length (config.maxLen - out.length) with open_ | full
        · have cut : (out ++ (tensor.take (min tensor.length (config.maxLen - out.length))).map
              (config.written key)).length = out.length + b.length := by
            rw [List.length_append, List.length_map, List.length_take, size]
            omega
          dsimp only at returned
          rw [cut, if_neg (by omega)] at returned
          refine ih (by omega) returned d (Nat.lt_of_succ_lt_succ hd) ?_
          rw [cut, ← Nat.sub_sub]
          exact (read_succ_iff open_ d).mp read
        · exact absurd read (not_read_succ full d)

/-- The buffer of a key is complete exactly when every sample that is read has the key. -/
theorem stack_isSome_iff {key : Key} {samples : List (Sample Row)} : (config.stack samples key).isSome ↔
    ∀ d (hd : d < samples.length), Read config.maxLen samples d → (samples[d].rows key).isSome := by
  rw [stack, Option.isSome_map]
  refine ⟨held_of_fillKey (Nat.zero_le _), fun held => ?_⟩
  rw [fillKey_eq (Nat.zero_le _) held]
  rfl

theorem stack_eq {key : Key} {samples : List (Sample Row)} {tensor : List (Row key)}
    (stacked : config.stack samples key = some tensor) :
    tensor = collateRows config.maxLen (samples.map (config.tensorOf key)) := by
  have held := stack_isSome_iff.mp (Option.isSome_of_mem stacked)
  rw [stack, fillKey_eq (Nat.zero_le _) held] at stacked
  exact (Option.some.inj stacked).symm

theorem stack_document {samples : List (Sample Row)} {key : Key} {tensor : List (Row key)}
    (stacked : config.stack samples key = some tensor) {d : Nat} (hd : d < samples.length) {p : Nat}
    (after : start (samples.map Sample.length) d ≤ p)
    (before : p < min (start (samples.map Sample.length) d + samples[d].length) config.maxLen) :
    ∃ own row, samples[d].rows key = some own ∧
      own[p - start (samples.map Sample.length) d]? = some row ∧ tensor[p]? = some (config.written key row) := by
  obtain ⟨i, rfl⟩ := Nat.exists_eq_add_of_le after
  obtain ⟨within, inside⟩ := Nat.lt_min.mp before
  have read : Read config.maxLen samples d := .inr (by omega)
  obtain ⟨own, given⟩ := Option.isSome_iff_exists.mp (stack_isSome_iff.mp (Option.isSome_of_mem stacked) d hd read)
  have size := samples[d].aligned key own given
  have listed : d < (samples.map (config.tensorOf key)).length := by rwa [List.length_map]
  have entry := getD_flatMap id (samples.map (config.tensorOf key)) listed (i := i)
    (by simp [tensorOf, given]; omega) 0
  simp only [id_eq, List.flatMap_id, lengths_tensorOf, List.getElem_map, tensorOf, given, Option.getD_some] at entry
  refine ⟨own, own[i], given, ?_, ?_⟩
  · rw [Nat.add_sub_cancel_left, List.getElem?_eq_getElem]
  · rw [stack_eq stacked, getElem?_collateRows, if_pos inside]
    exact congrArg some entry

theorem stack_padding {samples : List (Sample Row)} {key : Key} {tensor : List (Row key)}
    (stacked : config.stack samples key = some tensor) {p : Nat} (behind : (samples.map Sample.length).sum ≤ p)
    (inside : p < config.maxLen) : tensor[p]? = some 0 := by
  rw [stack_eq stacked, getElem?_collateRows, if_pos inside, List.getD_eq_default]
  rwa [List.length_flatten, lengths_tensorOf]

/-- Some samples are collated when each that is read has the keys of the first one. -/
theorem collateSamples_isSome_iff {first : Sample Row} {rest : List (Sample Row)} :
    (config.collateSamples (first :: rest)).isSome ↔ ((first.rows .aifdHiddenStates).isSome →
      ∀ d (hd : d < (first :: rest).length), Read config.maxLen (first :: rest) d →
        ((first :: rest)[d].rows .aifdHiddenStates).isSome) := by
  rw [collateSamples]
  split
  next complete => exact iff_of_true rfl fun here => stack_isSome_iff.mp (complete .aifdHiddenStates here)
  next incomplete =>
    refine iff_of_false Bool.false_ne_true fun held => incomplete fun key here => ?_
    refine stack_isSome_iff.mpr fun d hd read => ?_
    by_cases aifd : key = .aifdHiddenStates
    · subst aifd
      exact held here d hd read
    · exact Sample.required _ key aifd

theorem collateSamples_keys {first : Sample Row} {rest : List (Sample Row)} {collated : CollatedBatch Row}
    (returned : config.collateSamples (first :: rest) = some collated) (key : Key) :
    (collated.rows key).isSome = (first.rows key).isSome := by
  rw [collateSamples] at returned
  split at returned
  next complete =>
    cases returned
    cases given : first.rows key with
    | none => simp [given]
    | some own =>
      obtain ⟨tensor, stacked⟩ := Option.isSome_iff_exists.mp (complete key (by simp [given]))
      simp [given, stacked]
  next => contradiction

theorem collateSamples_aligned {samples : List (Sample Row)} {collated : CollatedBatch Row}
    (returned : config.collateSamples samples = some collated) : Aligned config samples collated := by
  cases samples with
  | nil => contradiction
  | cons first rest =>
    rw [collateSamples] at returned
    split at returned
    next complete =>
      cases returned
      have ids := fun d (hd : d < (first :: rest).length) => collateDocumentIds_eq_some_iff config.maxLen
        ((first :: rest).map Sample.length) (show d < ((first :: rest).map Sample.length).length by
          rwa [List.length_map])
      simp only [List.getElem_map] at ids
      refine ⟨ids, collateDocumentIds_eq_padding_iff _ _, fun p id found => ?_, fun key tensor held => ?_⟩
      · simpa only [List.length_map] using collateDocumentIds_cases found
      · obtain ⟨own, -, stacked⟩ := Option.bind_eq_some_iff.mp held
        refine ⟨stack_eq stacked ▸ length_collateRows .., fun d hd p found => ?_, fun p found => ?_⟩
        · obtain ⟨after, before⟩ := (ids d hd p).mp found
          exact stack_document stacked hd after before
        · obtain ⟨behind, inside⟩ := (collateDocumentIds_eq_padding_iff _ _ p).mp found
          exact stack_padding stacked behind inside
    next => contradiction

end CollateConfig

/-- Without documents there is only padding. -/
theorem Aligned.of_empty [∀ key, Zero (Row key)] {config : CollateConfig Row} {sample : Sample Row}
    {collated : CollatedBatch Row} (empty : sample.length = 0)
    (aligned : Aligned config [sample] collated) : Aligned config [] collated where
  ids d hd := absurd hd (Nat.not_lt_zero d)
  padding p := by simpa [empty] using aligned.padding p
  only p id found := by
    rcases aligned.only p id found with padding | ⟨d, hd, rfl⟩
    · exact .inl padding
    · obtain rfl : d = 0 := by simpa using hd
      have place := (aligned.ids 0 hd p).mp found
      simp [start, empty] at place
  rows key tensor held := by
    obtain ⟨size, -, padded⟩ := aligned.rows key tensor held
    exact ⟨size, fun d hd => absurd hd (Nat.not_lt_zero d), padded⟩

end DreamAifd.Collate
