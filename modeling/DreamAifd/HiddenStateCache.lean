import DreamAifd.Segments

/-! The paged cache of hidden-state rows: rows are scattered to the slots of a step's tokens
and gathered by the blocks of a finished request. -/
namespace DreamAifd

variable {ρ : Type*}

/-- Rows by block and position in the block. -/
abbrev KvCache (ρ : Type*) := Nat × Nat → ρ

def slotEntry (blockSize slot : Nat) : Nat × Nat := (slot / blockSize, slot % blockSize)

theorem slotEntry_inj {blockSize slot slot' : Nat} :
    slotEntry blockSize slot = slotEntry blockSize slot' ↔ slot = slot' := by
  refine ⟨fun same => ?_, congrArg _⟩
  obtain ⟨block, offset⟩ := Prod.mk.inj same
  rw [← Nat.div_add_mod slot blockSize, block, offset, Nat.div_add_mod]

/-- `kv_cache[slot_mapping // block_size, slot_mapping % block_size] = to_cache`, row by row. -/
def basicCache (blockSize : Nat) : KvCache ρ → List Nat → List ρ → KvCache ρ
  | kvCache, slot :: slotMapping, row :: toCache =>
    basicCache blockSize (Function.update kvCache (slotEntry blockSize slot) row) slotMapping toCache
  | kvCache, _, _ => kvCache

theorem basicCache_of_not_mem {blockSize slot : Nat} {slotMapping : List Nat}
    (other : slot ∉ slotMapping) (kvCache : KvCache ρ) (toCache : List ρ) :
    basicCache blockSize kvCache slotMapping toCache (slotEntry blockSize slot) =
      kvCache (slotEntry blockSize slot) := by
  induction slotMapping generalizing kvCache toCache with
  | nil => rfl
  | cons first slotMapping ih =>
    cases toCache with
    | nil => rfl
    | cons row toCache =>
      obtain ⟨different, rest⟩ := List.ne_and_not_mem_of_not_mem_cons other
      rw [basicCache, ih rest, Function.update_of_ne fun same => different (slotEntry_inj.mp same)]

theorem basicCache_getElem {blockSize : Nat} {slotMapping : List Nat} (distinct : slotMapping.Nodup)
    (kvCache : KvCache ρ) {toCache : List ρ} {i : Nat} (hi : i < slotMapping.length)
    (inside : i < toCache.length) :
    basicCache blockSize kvCache slotMapping toCache (slotEntry blockSize slotMapping[i]) =
      toCache[i] := by
  induction slotMapping generalizing kvCache toCache i with
  | nil => simp at hi
  | cons first slotMapping ih =>
    obtain ⟨fresh, rest⟩ := List.nodup_cons.mp distinct
    cases toCache with
    | nil => simp at inside
    | cons row toCache =>
      cases i with
      | zero =>
        rw [basicCache, List.getElem_cons_zero, basicCache_of_not_mem fresh]
        exact Function.update_self ..
      | succ i => exact ih rest _ (by simpa using hi) (by simpa using inside)

def slotOf (blockSize : Nat) (blockIds : List Nat) (position : Nat) : Nat :=
  blockIds.getD (position / blockSize) 0 * blockSize + position % blockSize

/-- The slot mapping of `_submit_async_write`: all slots of the blocks in order. -/
def blockSlots (blockSize : Nat) (blockIds : List Nat) : List Nat :=
  blockIds.flatMap fun blockId => (List.range blockSize).map fun offset => offset + blockId * blockSize

def extractFromKvCache (blockSize : Nat) (kvCache : KvCache ρ) (slotMapping : List Nat)
    (numTokens : Nat) : List ρ :=
  (slotMapping.map fun slot => kvCache (slotEntry blockSize slot)).take numTokens

theorem blockSlots_eq (blockSize : Nat) (blockIds : List Nat) : blockSlots blockSize blockIds =
    (List.range (blockIds.length * blockSize)).map (slotOf blockSize blockIds) := by
  induction blockIds with
  | nil => simp [blockSlots]
  | cons blockId blockIds ih =>
    have size : (blockId :: blockIds).length * blockSize = blockSize + blockIds.length * blockSize := by
      rw [List.length_cons, Nat.succ_mul, Nat.add_comm]
    rw [blockSlots, List.flatMap_cons, ← blockSlots, ih, size, List.range_add, List.map_append,
      List.map_map]
    congr 1
    · apply List.map_congr_left
      intro offset member
      have inside := List.mem_range.mp member
      rw [slotOf, Nat.div_eq_of_lt inside, Nat.mod_eq_of_lt inside, Nat.add_comm]
      rfl
    · apply List.map_congr_left
      intro position member
      have filled : 0 < blockSize := by
        have := List.mem_range.mp member
        exact Nat.pos_of_ne_zero fun none => by simp [none] at this
      simp only [Function.comp_apply, slotOf, Nat.add_div_left _ filled, Nat.add_mod_left,
        List.getD_cons_succ]

/-- A finished request reads the slots of its positions. -/
theorem extractFromKvCache_blockSlots {blockSize : Nat} {blockIds : List Nat} {numTokens : Nat}
    (enough : numTokens ≤ blockIds.length * blockSize) (kvCache : KvCache ρ) :
    extractFromKvCache blockSize kvCache (blockSlots blockSize blockIds) numTokens =
      (List.range numTokens).map fun position =>
        kvCache (slotEntry blockSize (slotOf blockSize blockIds position)) := by
  rw [extractFromKvCache, blockSlots_eq, List.map_map, ← List.map_take, List.take_range,
    Nat.min_eq_left enough]
  rfl

end DreamAifd
