import DreamAifd.Segments

/-! The places of draft tokens and of their logits in a packed batch. Every request has the rows of its
scheduled tokens one after the other; of these the last ones, one more than it has drafts, are sampled from. -/
namespace DreamAifd.SpecDecode

open Segments

/-! ### Windows of packed segments -/

def npRepeat (values counts : List Nat) : List Nat :=
  (values.zip counts).flatMap fun (value, n) => List.replicate n value

def getCumsumAndArange (numTokens : List Nat) : List Nat × List Nat :=
  let cuNumTokens := cumulative 0 numTokens
  let cumsumsOffsets := npRepeat (List.zipWith (· - ·) cuNumTokens numTokens) numTokens
  (cuNumTokens, List.zipWith (· - ·) (List.range (cuNumTokens.getLastD 0)) cumsumsOffsets)

def gather {β : Type*} [Inhabited β] (xs : List β) (indices : List Nat) : List β :=
  indices.map fun i => xs.getD i default

/-- `np.repeat(bases, counts)` and the positions of every segment added to it. -/
def windowIndices (bases counts : List Nat) : List Nat :=
  List.zipWith (· + ·) (npRepeat bases counts) (getCumsumAndArange counts).2

variable {α β : Type*}

theorem zipWith_replicate_range (op : Nat → Nat → Nat) (value n : Nat) :
    List.zipWith op (List.replicate n value) (List.range n) = (List.range n).map (op value) := by
  apply List.ext_getElem
  · simp
  · intro i _ _
    simp

theorem arange_from (offset : Nat) (counts : List Nat) :
    List.zipWith (· - ·) (List.range' offset counts.sum)
      (npRepeat (List.zipWith (· - ·) (cumulative offset counts) counts) counts) = counts.flatMap List.range := by
  induction counts generalizing offset with
  | nil => rfl
  | cons n counts ih =>
    have first : List.zipWith (· - ·) (List.range' offset n) (List.replicate n offset) = List.range n := by
      apply List.ext_getElem
      · simp
      · intro i _ _
        simp
    rw [List.sum_cons, ← List.range'_append_1, cumulative, List.zipWith_cons_cons, npRepeat, List.zip_cons_cons,
      List.flatMap_cons, Nat.add_sub_cancel, List.zipWith_append (by simp), first, List.flatMap_cons]
    exact congrArg (List.range n ++ ·) (ih (offset + n))

theorem getLastD_cumulative (offset : Nat) (counts : List Nat) :
    (cumulative offset counts).getLastD offset = offset + counts.sum := by
  induction counts generalizing offset with
  | nil => rfl
  | cons n counts ih =>
    rw [cumulative, List.getLastD_cons, ih, List.sum_cons, Nat.add_assoc]

theorem getCumsumAndArange_snd (counts : List Nat) : (getCumsumAndArange counts).2 = counts.flatMap List.range := by
  rw [getCumsumAndArange, getLastD_cumulative, Nat.zero_add, List.range_eq_range']
  exact arange_from 0 counts

theorem windowIndices_cons (base n : Nat) (bases counts : List Nat) :
    windowIndices (base :: bases) (n :: counts) = (List.range n).map (base + ·) ++ windowIndices bases counts := by
  rw [windowIndices, windowIndices, getCumsumAndArange_snd, getCumsumAndArange_snd, npRepeat, List.zip_cons_cons,
    List.flatMap_cons, List.flatMap_cons, List.zipWith_append (by simp), zipWith_replicate_range]
  rfl

theorem map_succ_windowIndices (bases counts : List Nat) :
    (windowIndices bases counts).map (· + 1) = windowIndices (bases.map (· + 1)) counts := by
  induction bases generalizing counts with
  | nil => rfl
  | cons base bases ih =>
    cases counts with
    | nil => rfl
    | cons n counts =>
      rw [List.map_cons, windowIndices_cons, windowIndices_cons, List.map_append, ih, List.map_map]
      congr 1
      exact List.map_congr_left fun i _ => Nat.add_right_comm base i 1

/-- Where a window of every segment starts that lies `place` behind the segment's start. -/
def bases (size place : α → Nat) : Nat → List α → List Nat
  | _, [] => []
  | offset, x :: xs => (offset + place x) :: bases size place (offset + size x) xs

theorem zipWith_cumulative (size place count : α → Nat) (xs : List α) (offset : Nat)
    (ends : ∀ x ∈ xs, place x + count x = size x) :
    List.zipWith (· - ·) (cumulative offset (xs.map size)) (xs.map count) = bases size place offset xs := by
  induction xs generalizing offset with
  | nil => rfl
  | cons x xs ih =>
    have here := ends x List.mem_cons_self
    rw [List.map_cons, List.map_cons, cumulative, List.zipWith_cons_cons,
      ih (offset + size x) fun y member => ends y (List.mem_cons_of_mem _ member), bases]
    congr 1
    omega

theorem map_succ_bases (size place : α → Nat) (xs : List α) (offset : Nat) :
    (bases size place offset xs).map (· + 1) = bases size (fun x => place x + 1) offset xs := by
  induction xs generalizing offset with
  | nil => rfl
  | cons x xs ih => rw [bases, List.map_cons, ih, bases, Nat.add_assoc]

theorem map_pred_cumulative (size place : α → Nat) (xs : List α) (offset : Nat)
    (ends : ∀ x ∈ xs, place x + 1 = size x) :
    (cumulative offset (xs.map size)).map (· - 1) = bases size place offset xs := by
  induction xs generalizing offset with
  | nil => rfl
  | cons x xs ih =>
    have here := ends x List.mem_cons_self
    rw [List.map_cons, cumulative, List.map_cons, ih (offset + size x) fun y member => ends y (List.mem_cons_of_mem _ member),
      bases]
    congr 1
    omega

theorem bases_congr {size size' place place' : α → Nat} {xs : List α} (sizes : ∀ x ∈ xs, size x = size' x)
    (places : ∀ x ∈ xs, place x = place' x) (offset : Nat) : bases size place offset xs = bases size' place' offset xs := by
  induction xs generalizing offset with
  | nil => rfl
  | cons x xs ih =>
    rw [bases, bases, sizes x List.mem_cons_self, places x List.mem_cons_self,
      ih (fun y member => sizes y (List.mem_cons_of_mem _ member)) fun y member => places y (List.mem_cons_of_mem _ member)]

variable [Inhabited β]

theorem gather_append (xs : List β) (left right : List Nat) :
    gather xs (left ++ right) = gather xs left ++ gather xs right :=
  List.map_append

/-- The entries of a window of one segment, behind `front` and whatever follows. -/
theorem gather_window (front middle back : List β) {place n : Nat} (inside : place + n ≤ middle.length) :
    gather (front ++ (middle ++ back)) ((List.range n).map (front.length + place + ·)) = slice place n middle := by
  rw [gather, List.map_map]
  apply List.ext_getElem
  · rw [List.length_map, List.length_range, slice, List.length_take, List.length_drop]
    omega
  · intro i here there
    have small : i < n := by simpa using here
    rw [List.getElem_map, List.getElem_range, Function.comp_apply, Nat.add_assoc, List.getD_eq_getElem?_getD,
      List.getElem?_append_right (Nat.le_add_right ..), Nat.add_sub_cancel_left,
      List.getElem?_append_left (by omega), List.getElem?_eq_getElem (by omega), Option.getD_some]
    simp [slice]

theorem gather_from (rows : α → List β) (place count : α → Nat) (xs : List α) (front : List β)
    (inside : ∀ x ∈ xs, place x + count x ≤ (rows x).length) :
    gather (front ++ xs.flatMap rows)
        (windowIndices (bases (fun x => (rows x).length) place front.length xs) (xs.map count)) =
      xs.flatMap fun x => slice (place x) (count x) (rows x) := by
  induction xs generalizing front with
  | nil => rfl
  | cons x xs ih =>
    have rest := ih (front ++ rows x) fun y member => inside y (List.mem_cons_of_mem _ member)
    rw [List.length_append, List.append_assoc] at rest
    rw [bases, List.map_cons, windowIndices_cons, gather_append, List.flatMap_cons,
      gather_window _ _ _ (inside x List.mem_cons_self), List.flatMap_cons, rest]

/-- A window of every segment, read out of the packed rows. -/
theorem gather_windows (rows : α → List β) (place count : α → Nat) (xs : List α)
    (inside : ∀ x ∈ xs, place x + count x ≤ (rows x).length) :
    gather (xs.flatMap rows)
        (windowIndices (bases (fun x => (rows x).length) place 0 xs) (xs.map count)) =
      xs.flatMap fun x => slice (place x) (count x) (rows x) :=
  gather_from rows place count xs [] inside

/-- One entry of every segment, read out of the packed rows. -/
theorem gather_bases (rows : α → List β) (place : α → Nat) (xs : List α)
    (inside : ∀ x ∈ xs, place x < (rows x).length) :
    gather (xs.flatMap rows) (bases (fun x => (rows x).length) place 0 xs) =
      xs.map fun x => (rows x).getD (place x) default := by
  suffices behind : ∀ front : List β, gather (front ++ xs.flatMap rows)
      (bases (fun x => (rows x).length) place front.length xs) = xs.map fun x => (rows x).getD (place x) default from
    behind []
  intro front
  induction xs generalizing front with
  | nil => rfl
  | cons x xs ih =>
    have rest := ih (fun y member => inside y (List.mem_cons_of_mem _ member)) (front ++ rows x)
    have first := inside x List.mem_cons_self
    rw [List.length_append, List.append_assoc] at rest
    rw [bases, gather, List.map_cons, ← gather, List.flatMap_cons, rest, List.map_cons, List.getD_eq_getElem?_getD,
      List.getElem?_append_right (Nat.le_add_right ..), Nat.add_sub_cancel_left, List.getElem?_append_left first,
      ← List.getD_eq_getElem?_getD]

/-! ### The metadata of a batch -/

structure SpecDecodeMetadata where
  draftTokenIds : List Int
  numDraftTokens : List Nat
  cuNumDraftTokens : List Nat
  targetLogitsIndices : List Nat
  bonusLogitsIndices : List Nat
  logitsIndices : List Nat

def calcSpecDecodeMetadata (inputIds : List Int) (numDraftTokens cuNumScheduledTokens : List Nat) :
    SpecDecodeMetadata :=
  let numSampledTokens := numDraftTokens.map (· + 1)
  let (cuNumSampledTokens, sampledArange) := getCumsumAndArange numSampledTokens
  let logitsIndices := List.zipWith (· + ·)
    (npRepeat (List.zipWith (· - ·) cuNumScheduledTokens numSampledTokens) numSampledTokens) sampledArange
  let (cuNumDraftTokens, draftArange) := getCumsumAndArange numDraftTokens
  let targetLogitsIndices := List.zipWith (· + ·)
    (npRepeat (List.zipWith (· - ·) cuNumSampledTokens numSampledTokens) numDraftTokens) draftArange
  { draftTokenIds := gather (gather inputIds logitsIndices) (targetLogitsIndices.map (· + 1))
    numDraftTokens
    cuNumDraftTokens
    targetLogitsIndices
    bonusLogitsIndices := cuNumSampledTokens.map (· - 1)
    logitsIndices }

end DreamAifd.SpecDecode
