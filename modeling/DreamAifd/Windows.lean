import DreamAifd.Segments

/-! Cutting a sequence into consecutive windows of one width, the last of which may be
shorter. A loop that closes a window at every multiple of the width yields the full ones
and keeps the rest. -/
namespace DreamAifd.Windows

open Segments

variable {α β : Type*}

def full (width : Nat) (xs : List α) : List (List α) :=
  (List.range (xs.length / width)).map fun k => slice (k * width) width xs

def rest (width : Nat) (xs : List α) : List α := xs.drop (xs.length / width * width)

def all (width : Nat) (xs : List α) : List (List α) :=
  full width xs ++ if width ∣ xs.length then [] else [rest width xs]

theorem rest_of_dvd {width : Nat} {xs : List α} (divides : width ∣ xs.length) : rest width xs = [] := by
  rw [rest, Nat.div_mul_cancel divides, List.drop_length]

@[simp] theorem length_rest (width : Nat) (xs : List α) : (rest width xs).length = xs.length % width := by
  have := Nat.div_add_mod' xs.length width
  rw [rest, List.length_drop]
  omega

theorem length_of_mem_full {width : Nat} {xs window : List α} (member : window ∈ full width xs) :
    window.length = width := by
  obtain ⟨k, bound, rfl⟩ := List.mem_map.mp member
  have reach : (k + 1) * width ≤ xs.length :=
    (Nat.mul_le_mul_right width (List.mem_range.mp bound)).trans (Nat.div_mul_le_self _ _)
  rw [Nat.succ_mul] at reach
  rw [slice, List.length_take, List.length_drop]
  omega

theorem sum_length_full (width : Nat) (xs : List α) :
    ((full width xs).map List.length).sum = xs.length / width * width := by
  have sizes : (full width xs).map List.length = List.replicate (xs.length / width) width := by
    apply List.eq_replicate_iff.mpr
    constructor
    · simp [full]
    · simp only [List.forall_mem_map]
      exact fun window member => length_of_mem_full member
  rw [sizes, List.sum_replicate, smul_eq_mul]

theorem full_map (f : α → β) (width : Nat) (xs : List α) :
    full width (xs.map f) = (full width xs).map (List.map f) := by
  simp [full]

theorem rest_map (f : α → β) (width : Nat) (xs : List α) :
    rest width (xs.map f) = (rest width xs).map f := by
  simp [rest, List.map_drop]

/-- Dropping whole windows drops that many of them. -/
theorem full_drop (width count : Nat) (xs : List α) :
    full width (xs.drop (count * width)) = (full width xs).drop count := by
  rcases Nat.eq_zero_or_pos width with rfl | positive
  · simp [full]
  · rw [full, full, List.length_drop, Nat.mul_comm, Nat.sub_mul_div, ← List.map_drop,
      List.range_eq_range', List.range_eq_range', List.drop_range']
    apply List.ext_getElem
    · simp
    · intro k _ _
      simp [slice, List.drop_drop, Nat.add_mul, Nat.mul_comm count]

/-- One more element closes a window when it fills it. -/
theorem full_concat {width : Nat} (positive : 0 < width) (xs : List α) (x : α) :
    full width (xs ++ [x]) =
      full width xs ++ if width ∣ xs.length + 1 then [rest width xs ++ [x]] else [] := by
  have before : (List.range (xs.length / width)).map (fun k => slice (k * width) width (xs ++ [x])) =
      full width xs := by
    apply List.map_congr_left
    intro k member
    have reach : (k + 1) * width ≤ xs.length :=
      (Nat.mul_le_mul_right width (List.mem_range.mp member)).trans (Nat.div_mul_le_self _ _)
    rw [Nat.succ_mul] at reach
    rw [slice, slice, List.drop_append_of_le_length (by omega),
      List.take_append_of_le_length (by rw [List.length_drop]; omega)]
  rw [full, List.length_append, List.length_singleton, Nat.succ_div]
  split
  next closed =>
    have size : (rest width xs ++ [x]).length ≤ width := by
      have := Nat.mod_lt xs.length positive
      simp only [List.length_append, length_rest, List.length_singleton]
      omega
    rw [List.range_succ, List.map_append, before, List.map_singleton, slice,
      List.drop_append_of_le_length (Nat.div_mul_le_self _ _), ← rest, List.take_of_length_le size]
  next => rw [Nat.add_zero, before, List.append_nil]

theorem rest_concat {width : Nat} (xs : List α) (x : α) (opened : ¬ width ∣ xs.length + 1) :
    rest width (xs ++ [x]) = rest width xs ++ [x] := by
  rw [rest, List.length_append, List.length_singleton, Nat.succ_div, if_neg opened, Nat.add_zero,
    List.drop_append_of_le_length (Nat.div_mul_le_self _ _), ← rest]

/-- The windows joined are the sequence. -/
theorem flatten_full {width : Nat} (positive : 0 < width) (xs : List α) :
    (full width xs).flatten ++ rest width xs = xs := by
  induction xs using List.reverseRecOn with
  | nil => simp [full, rest]
  | append_singleton xs x ih =>
    rw [full_concat positive]
    by_cases closed : width ∣ xs.length + 1
    · have whole : width ∣ (xs ++ [x]).length := by rwa [List.length_append]
      rw [if_pos closed, List.flatten_append, rest_of_dvd whole, List.append_nil, List.flatten_singleton,
        ← List.append_assoc, ih]
    · rw [if_neg closed, List.append_nil, rest_concat xs x closed, ← List.append_assoc, ih]

theorem all_of_dvd {width : Nat} {xs : List α} (divides : width ∣ xs.length) :
    all width xs = full width xs := by
  rw [all, if_pos divides, List.append_nil]

@[simp] theorem length_full (width : Nat) (xs : List α) : (full width xs).length = xs.length / width := by
  simp [full]

/-- Starting over behind `count` elements cuts the same windows as going on, exactly when
the start is a window end and no partial window is left at the end. -/
theorem full_drop_eq_iff {width count : Nat} {xs : List α} (within : count ≤ xs.length) :
    full width (xs.drop count) = (all width xs).drop (count / width) ↔
      width ∣ count ∧ width ∣ xs.length := by
  constructor
  · intro same
    have whole : count / width ≤ (full width xs).length := by
      rw [length_full]
      exact Nat.div_le_div_right within
    have sizes := congrArg (fun windows : List (List α) => (windows.map List.length).sum) same
    simp only [all, List.drop_append_of_le_length whole, ← full_drop, List.map_append, List.sum_append,
      sum_length_full, List.length_drop] at sizes
    rw [Nat.mul_comm (count / width), Nat.sub_mul_div, Nat.sub_mul] at sizes
    have tail : ((if width ∣ xs.length then [] else [rest width xs]).map List.length).sum =
        xs.length % width := by
      split
      next divides => rw [Nat.mod_eq_zero_of_dvd divides]; rfl
      next => simp
    have blocks : count / width * width ≤ xs.length / width * width :=
      Nat.mul_le_mul_right width (Nat.div_le_div_right within)
    have total := Nat.div_add_mod' xs.length width
    have front := Nat.div_add_mod' count width
    have back := Nat.div_add_mod' (xs.length - count) width
    rw [tail] at sizes
    have starts : count % width = 0 := by omega
    have ends : (xs.length - count) % width = 0 := by omega
    have divides := Nat.dvd_of_mod_eq_zero starts
    exact ⟨divides, (Nat.dvd_sub_iff_left within divides).mp (Nat.dvd_of_mod_eq_zero ends)⟩
  · rintro ⟨⟨windows, rfl⟩, divides⟩
    rw [all_of_dvd divides]
    rcases Nat.eq_zero_or_pos width with rfl | positive
    · simp [full]
    · rw [Nat.mul_div_cancel_left _ positive, Nat.mul_comm, full_drop]

end DreamAifd.Windows
