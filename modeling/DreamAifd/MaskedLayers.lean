import Mathlib

/-! Layers that act on every row alone, except for attention to the keys that a mask admits.
Two runs on inputs that agree on some positions agree there after every layer, as long as
the queries among these positions attend to nothing outside them. -/
namespace DreamAifd.MaskedLayers

variable {α β κ : Type*}

/-- Lists of one length that agree at the positions of `S`. -/
structure AgreeOn (S : Nat → Prop) (left right : List α) : Prop where
  length : left.length = right.length
  entry : ∀ i, S i → left[i]? = right[i]?

namespace AgreeOn

variable {S T : Nat → Prop} {left right : List α}

theorem mono (agree : AgreeOn S left right) (within : ∀ i, T i → S i) : AgreeOn T left right :=
  ⟨agree.length, fun i inside => agree.entry i (within i inside)⟩

theorem map (agree : AgreeOn S left right) (f : α → β) : AgreeOn S (left.map f) (right.map f) := by
  constructor
  · rw [List.length_map, List.length_map, agree.length]
  · intro i inside
    rw [List.getElem?_map, List.getElem?_map, agree.entry i inside]

/-- Functions of the position that agree on `S`. -/
theorem mapIdx (agree : AgreeOn S left right) {f g : Nat → α → β} (same : ∀ i, S i → ∀ x, f i x = g i x) :
    AgreeOn S (left.mapIdx f) (right.mapIdx g) := by
  constructor
  · rw [List.length_mapIdx, List.length_mapIdx, agree.length]
  · intro i inside
    rw [List.getElem?_mapIdx, List.getElem?_mapIdx, agree.entry i inside]
    cases right[i]? with
    | none => rfl
    | some x => exact congrArg some (same i inside x)

theorem append {front back : Nat → Prop} {left' right' : List α} (head : AgreeOn front left right)
    (tail : AgreeOn back left' right')
    (within : ∀ i, S i → (i < left.length ∧ front i) ∨ (left.length ≤ i ∧ back (i - left.length))) :
    AgreeOn S (left ++ left') (right ++ right') := by
  constructor
  · rw [List.length_append, List.length_append, head.length, tail.length]
  · intro i inside
    rcases within i inside with ⟨low, here⟩ | ⟨high, here⟩
    · rw [List.getElem?_append_left low, List.getElem?_append_left (head.length ▸ low), head.entry i here]
    · rw [List.getElem?_append_right high, List.getElem?_append_right (head.length ▸ high), ← head.length,
        tail.entry _ here]

end AgreeOn

/-- The keys that a mask admits, the others blanked. -/
def visible (mask : Nat → Bool) (keys : List κ) : List (Option κ) :=
  keys.mapIdx fun i key => if mask i then some key else none

theorem visible_congr {mask : Nat → Bool} {left right : List κ} {S : Nat → Prop}
    (agree : AgreeOn S left right) (closed : ∀ i, mask i → S i) : visible mask left = visible mask right := by
  apply List.ext_getElem?
  intro i
  rw [visible, visible, List.getElem?_mapIdx, List.getElem?_mapIdx]
  cases admitted : mask i with
  | true => rw [agree.entry i (closed i admitted)]
  | false =>
    rcases Nat.lt_or_ge i left.length with inside | outside
    · rw [List.getElem?_eq_getElem inside, List.getElem?_eq_getElem (agree.length ▸ inside)]
      rfl
    · rw [List.getElem?_eq_none outside, List.getElem?_eq_none (agree.length ▸ outside)]

/-- A layer: every query's row from the query and from the keys it may see. -/
def attendRows (forward : β → List (Option κ) → α) (mask : Nat → Nat → Bool) (keys : List κ)
    (queries : List β) : List α :=
  queries.mapIdx fun q query => forward query (visible (mask q) keys)

@[simp] theorem length_attendRows (forward : β → List (Option κ) → α) (mask : Nat → Nat → Bool)
    (keys : List κ) (queries : List β) : (attendRows forward mask keys queries).length = queries.length :=
  List.length_mapIdx

/-- Queries of `S` that see keys of `K` only keep the agreement. -/
theorem attendRows_agree {S K : Nat → Prop} {mask : Nat → Nat → Bool} {leftKeys rightKeys : List κ}
    {left right : List β} (forward : β → List (Option κ) → α) (keys : AgreeOn K leftKeys rightKeys)
    (queries : AgreeOn S left right) (closed : ∀ q, S q → ∀ i, mask q i → K i) :
    AgreeOn S (attendRows forward mask leftKeys left) (attendRows forward mask rightKeys right) :=
  queries.mapIdx fun q inside query => congrArg (forward query) (visible_congr keys (closed q inside))

end DreamAifd.MaskedLayers
