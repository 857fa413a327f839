import Mathlib

/-! Cutting a packed sequence into consecutive segments. `slice` is the half-open window
of an array library; `forSegments` walks the segments of given lengths in order and joins
what each one yields. -/
namespace DreamAifd.Segments

variable {α β γ : Type*}

/-- The window `[offset, offset + n)` of a sequence. -/
def slice (offset n : Nat) (xs : List α) : List α := (xs.drop offset).take n

@[simp] theorem slice_map (f : α → β) (offset n : Nat) (xs : List α) :
    slice offset n (xs.map f) = (slice offset n xs).map f := by
  simp [slice, List.map_drop, List.map_take]

theorem getD_slice {offset n i : Nat} (inside : i < n) (xs : List α) (default : α) :
    (slice offset n xs).getD i default = xs.getD (offset + i) default := by
  simp [slice, List.getD_eq_getElem?_getD, inside]

theorem slice_range {offset n total : Nat} (bound : offset + n ≤ total) :
    slice offset n (List.range total) = (List.range n).map (offset + ·) := by
  apply List.ext_getElem
  · simp [slice]; omega
  · intro t ht _
    simp [slice]

theorem slice_map_range (f : Nat → α) {offset n total : Nat} (bound : offset + n ≤ total) :
    slice offset n ((List.range total).map f) = (List.range n).map fun t => f (offset + t) := by
  rw [slice_map, slice_range bound, List.map_map]
  rfl

theorem eq_map_range_getD (xs : List α) (default : α) {n : Nat} (size : xs.length = n) :
    xs = (List.range n).map fun t => xs.getD t default := by
  subst size
  apply List.ext_getElem
  · simp
  · intro t bound _
    simp [bound]

/-- A window over exactly the middle part of a joined sequence returns that part. -/
theorem slice_append (left middle right : List α) :
    slice left.length middle.length (left ++ (middle ++ right)) = middle := by
  simp [slice]

/-- Start of segment `k` in the packing of segments of the given lengths. -/
def start (lengths : List Nat) (k : Nat) : Nat := (lengths.take k).sum

/-- The window of segment `k` over joined segments is that segment. -/
theorem slice_flatMap (f : α → List β) (xs : List α) (k : Nat) (hk : k < xs.length) :
    slice (start (xs.map fun x => (f x).length) k) (f xs[k]).length (xs.flatMap f) = f xs[k] := by
  have before : start (xs.map fun x => (f x).length) k = ((xs.take k).flatMap f).length := by
    rw [start, ← List.map_take, List.length_flatMap]
  have split : xs.flatMap f = (xs.take k).flatMap f ++ (f xs[k] ++ (xs.drop (k + 1)).flatMap f) := by
    rw [← List.flatMap_cons, ← List.flatMap_append, ← List.drop_eq_getElem_cons hk,
      List.take_append_drop]
  rw [before, split, slice_append]

/-- An entry of joined segments, found by its segment and its place there. -/
theorem getElem?_flatMap_start (f : α → List β) (xs : List α) {k i : Nat} (hk : k < xs.length)
    (inside : i < (f xs[k]).length) :
    (xs.flatMap f)[start (xs.map fun x => (f x).length) k + i]? = some (f xs[k])[i] := by
  have entry := congrArg (·[i]?) (slice_flatMap f xs k hk)
  simp only [slice, List.getElem?_take_of_lt inside, List.getElem?_drop] at entry
  rw [entry, List.getElem?_eq_getElem inside]

theorem getD_flatMap (f : α → List β) (xs : List α) {k i : Nat} (hk : k < xs.length)
    (inside : i < (f xs[k]).length) (default : β) :
    (xs.flatMap f).getD (start (xs.map fun x => (f x).length) k + i) default = (f xs[k])[i] := by
  rw [List.getD_eq_getElem?_getD, getElem?_flatMap_start f xs hk inside, Option.getD_some]

/-- Numbering the entries of joined segments numbers those of each segment from its start. -/
theorem mapIdx_flatMap (f : α → List β) (g : Nat → β → γ) (h : α → List γ) (xs : List α) (offset : Nat)
    (each : ∀ k (hk : k < xs.length),
      (f xs[k]).mapIdx (fun i => g (offset + (start (xs.map fun x => (f x).length) k + i))) = h xs[k]) :
    (xs.flatMap f).mapIdx (fun i => g (offset + i)) = xs.flatMap h := by
  induction xs generalizing offset with
  | nil => rfl
  | cons x xs ih =>
    have first := each 0 (by simp)
    simp only [start, List.take_zero, List.sum_nil, Nat.zero_add, List.getElem_cons_zero] at first
    rw [List.flatMap_cons, List.flatMap_cons, List.mapIdx_append, first]
    congr 1
    rw [← ih (offset + (f x).length)]
    · refine congrArg (List.mapIdx · _) (funext fun i => ?_)
      rw [Nat.add_comm i, Nat.add_assoc]
    · intro k hk
      have later := each (k + 1) (by simpa using hk)
      simp only [start, List.map_cons, List.take_succ_cons, List.sum_cons, List.getElem_cons_succ] at later
      rw [← later]
      refine congrArg (List.mapIdx · _) (funext fun i => ?_)
      simp only [start, Nat.add_assoc]

theorem start_add_length_le {lengths : List Nat} {k : Nat} (hk : k < lengths.length) :
    start lengths k + lengths[k] ≤ lengths.sum := by
  have split := List.sum_take_add_sum_drop lengths k
  rw [List.drop_eq_getElem_cons hk, List.sum_cons] at split
  rw [start]; omega

theorem start_add_getD_le (lengths : List Nat) {k m : Nat} (before : k < m) :
    start lengths k + lengths.getD k 0 ≤ start lengths m := by
  induction lengths generalizing k m with
  | nil => simp [start]
  | cons n lengths ih =>
    obtain ⟨m, rfl⟩ := Nat.exists_eq_succ_of_ne_zero (Nat.ne_of_gt (Nat.zero_lt_of_lt before))
    cases k with
    | zero => simp [start]
    | succ k =>
      have later := ih (Nat.lt_of_succ_lt_succ before)
      simp only [start, List.take_succ_cons, List.sum_cons, List.getD_cons_succ, Nat.succ_eq_add_one] at later ⊢
      omega

/-- A position lies in one segment only. -/
theorem start_unique {lengths : List Nat} {k m p : Nat} (after : start lengths k ≤ p)
    (before : p < start lengths k + lengths.getD k 0) (after' : start lengths m ≤ p)
    (before' : p < start lengths m + lengths.getD m 0) : k = m := by
  rcases Nat.lt_trichotomy k m with earlier | same | later
  · have ends := start_add_getD_le lengths earlier
    omega
  · exact same
  · have ends := start_add_getD_le lengths later
    omega

/-- An entry of a segment lies within all segments together. -/
theorem start_map_add_lt (size : α → Nat) {xs : List α} {k i : Nat} (hk : k < xs.length) (inside : i < size xs[k]) :
    start (xs.map size) k + i < (xs.map size).sum := by
  have reach := start_add_length_le (show k < (xs.map size).length by rwa [List.length_map])
  rw [List.getElem_map] at reach
  omega

/-- Every position lies in a segment. -/
theorem exists_segment (lengths : List Nat) {t : Nat} (inside : t < lengths.sum) :
    ∃ k, ∃ hk : k < lengths.length, ∃ i < lengths[k], t = start lengths k + i := by
  induction lengths generalizing t with
  | nil => simp at inside
  | cons n lengths ih =>
    rcases Nat.lt_or_ge t n with first | later
    · exact ⟨0, by simp, t, by simpa using first, by simp [start]⟩
    · rw [List.sum_cons] at inside
      obtain ⟨k, hk, i, within, place⟩ := ih (show t - n < lengths.sum by omega)
      refine ⟨k + 1, by simpa using hk, i, by simpa using within, ?_⟩
      simp only [start, List.take_succ_cons, List.sum_cons] at place ⊢
      omega

/-- Join what `f` yields on each segment, given as its offset and its length. -/
def forSegments (f : Nat → Nat → List β) : Nat → List Nat → List β
  | _, [] => []
  | offset, n :: lengths => f offset n ++ forSegments f (offset + n) lengths

theorem length_forSegments {f : Nat → Nat → List β} (exact : ∀ offset n, (f offset n).length = n)
    (offset : Nat) (lengths : List Nat) :
    (forSegments f offset lengths).length = lengths.sum := by
  induction lengths generalizing offset with
  | nil => rfl
  | cons n lengths ih => simp [forSegments, exact, ih]

/-- Each window of the joined result is what its own segment yielded. -/
theorem slice_forSegments {f : Nat → Nat → List β} (exact : ∀ offset n, (f offset n).length = n)
    (offset : Nat) (lengths : List Nat) (k : Nat) (hk : k < lengths.length) :
    slice (start lengths k) lengths[k] (forSegments f offset lengths) =
      f (offset + start lengths k) lengths[k] := by
  induction lengths generalizing offset k with
  | nil => simp at hk
  | cons n lengths ih =>
    cases k with
    | zero => simp [slice, start, forSegments, exact]
    | succ k =>
      have tail := ih (offset + n) k (by simpa using hk)
      have skip : (f offset n).length = n := exact offset n
      simp only [slice, start, forSegments, List.take_succ_cons, List.sum_cons,
        List.getElem_cons_succ] at tail ⊢
      rw [List.drop_append, List.drop_eq_nil_of_le (by omega), List.nil_append, skip,
        Nat.add_sub_cancel_left, tail, Nat.add_assoc]

theorem forSegments_congr {f g : Nat → Nat → List β} {offset : Nat} {lengths : List Nat}
    (same : ∀ k (hk : k < lengths.length),
      f (offset + start lengths k) lengths[k] = g (offset + start lengths k) lengths[k]) :
    forSegments f offset lengths = forSegments g offset lengths := by
  induction lengths generalizing offset with
  | nil => rfl
  | cons n lengths ih =>
    have first := same 0 (by simp)
    simp only [start, List.take_zero, List.sum_nil, Nat.add_zero, List.getElem_cons_zero] at first
    rw [forSegments, forSegments, first]
    congr 1
    apply ih
    intro k hk
    have later := same (k + 1) (by simpa using hk)
    simpa [start, Nat.add_assoc] using later

theorem forSegments_ones (f : Nat → Nat → List β) (offset count : Nat) :
    forSegments f offset (List.replicate count 1) =
      (List.range count).flatMap fun t => f (offset + t) 1 := by
  induction count generalizing offset with
  | zero => rfl
  | succ count ih =>
    rw [List.replicate_succ, forSegments, ih, List.range_succ_eq_map, List.flatMap_cons,
      List.flatMap_map]
    simp [Nat.add_assoc, Nat.add_comm 1]

/-- Running sums after each element, the cumulative form in which segment ends arrive. -/
def cumulative (offset : Nat) : List Nat → List Nat
  | [] => []
  | n :: lengths => (offset + n) :: cumulative (offset + n) lengths

theorem cumulative_sorted (offset : Nat) (lengths : List Nat) :
    (cumulative offset lengths).Pairwise (· ≤ ·) ∧ ∀ e ∈ cumulative offset lengths, offset ≤ e := by
  induction lengths generalizing offset with
  | nil => simp [cumulative]
  | cons n lengths ih =>
    obtain ⟨sorted, above⟩ := ih (offset + n)
    simp only [cumulative, List.pairwise_cons, List.mem_cons, forall_eq_or_imp]
    exact ⟨⟨above, sorted⟩, Nat.le_add_right _ _, fun e he => by have := above e he; omega⟩

@[simp] theorem length_cumulative (offset : Nat) (lengths : List Nat) :
    (cumulative offset lengths).length = lengths.length := by
  induction lengths generalizing offset with
  | nil => rfl
  | cons n lengths ih => simp [cumulative, ih]

theorem getElem?_cumulative (offset : Nat) (lengths : List Nat) {k : Nat} (hk : k < lengths.length) :
    (cumulative offset lengths)[k]? = some (offset + start lengths (k + 1)) := by
  induction lengths generalizing offset k with
  | nil => simp at hk
  | cons n lengths ih =>
    cases k with
    | zero => simp [cumulative, start]
    | succ k =>
      rw [cumulative, List.getElem?_cons_succ, ih (offset + n) (by simpa using hk)]
      simp only [start, List.take_succ_cons, List.sum_cons, Nat.add_assoc]

/-- A row of joined segments of one width. -/
theorem getElem?_flatMap {f : α → List β} {width : Nat} (positive : 0 < width)
    (each : ∀ x, (f x).length = width) (xs : List α) (i : Nat) :
    (xs.flatMap f)[i]? = xs[i / width]?.bind fun x => (f x)[i % width]? := by
  induction xs generalizing i with
  | nil => rfl
  | cons x xs ih =>
    rw [List.flatMap_cons]
    rcases Nat.lt_or_ge i width with first | later
    · rw [List.getElem?_append_left (by rwa [each]), Nat.div_eq_of_lt first, Nat.mod_eq_of_lt first]
      rfl
    · obtain ⟨rest, rfl⟩ := Nat.exists_eq_add_of_le later
      rw [List.getElem?_append_right (by rw [each]; exact later), each, Nat.add_sub_cancel_left, ih,
        Nat.add_div_left _ positive, Nat.add_mod_left, List.getElem?_cons_succ]

end DreamAifd.Segments
