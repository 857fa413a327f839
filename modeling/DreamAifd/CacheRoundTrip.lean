import DreamAifd.HiddenStateCache

/-! Reading back what the steps of a server have written to the paged cache. The proposer keeps
its buffers between steps and overwrites them in front only; what it adds behind a step's tokens
goes to block 0. -/
namespace DreamAifd

variable {ι ρ : Type*} {C : Nat}

/-- The blocks of the requests. None is shared, and none is the null block. -/
structure BlockTable (ι : Type*) where
  blockIds : ι → List Nat
  distinct : ∀ r, (blockIds r).Nodup
  disjoint : ∀ r r', r ≠ r' → (blockIds r).Disjoint (blockIds r')
  notNull : ∀ r, 0 ∉ blockIds r

namespace BlockTable

variable (table : BlockTable ι) {blockSize : Nat}

def Allocated (blockSize : Nat) (token : ι × Nat) : Prop :=
  token.2 < (table.blockIds token.1).length * blockSize

def slot (blockSize : Nat) (token : ι × Nat) : Nat := slotOf blockSize (table.blockIds token.1) token.2

variable {table}

/-- The entry of an allocated position. -/
theorem slotEntry_slot {r : ι} {i : Nat} (allocated : table.Allocated blockSize (r, i)) :
    ∃ hi : i / blockSize < (table.blockIds r).length,
      slotEntry blockSize (table.slot blockSize (r, i)) = ((table.blockIds r)[i / blockSize], i % blockSize) := by
  have bound : i < (table.blockIds r).length * blockSize := allocated
  have positive : 0 < blockSize := Nat.pos_of_ne_zero fun none => by simp [none] at bound
  have hi : i / blockSize < (table.blockIds r).length := Nat.div_lt_of_lt_mul (by rwa [Nat.mul_comm])
  refine ⟨hi, ?_⟩
  rw [slotEntry, slot, slotOf, List.getD_eq_getElem _ _ hi, Nat.mul_comm, Nat.mul_add_div positive,
    Nat.div_eq_of_lt (Nat.mod_lt i positive), Nat.add_zero, Nat.mul_add_mod, Nat.mod_mod]

theorem slotEntry_inj {token token' : ι × Nat} (allocated : table.Allocated blockSize token)
    (allocated' : table.Allocated blockSize token')
    (same : slotEntry blockSize (table.slot blockSize token) =
      slotEntry blockSize (table.slot blockSize token')) : token = token' := by
  obtain ⟨r, i⟩ := token
  obtain ⟨r', i'⟩ := token'
  obtain ⟨hi, entry⟩ := slotEntry_slot allocated
  obtain ⟨hi', entry'⟩ := slotEntry_slot allocated'
  rw [entry, entry'] at same
  obtain ⟨block, offset⟩ := Prod.mk.inj same
  by_cases apart : r = r'
  · subst apart
    have quotient := (table.distinct r).getElem_inj_iff.mp block
    rw [← Nat.div_add_mod i blockSize, quotient, offset, Nat.div_add_mod]
  · exact absurd (block ▸ List.getElem_mem hi') (table.disjoint r r' apart (List.getElem_mem hi))

theorem slotEntry_ne_null {token : ι × Nat} (allocated : table.Allocated blockSize token) :
    slotEntry blockSize (table.slot blockSize token) ≠ slotEntry blockSize 0 := by
  obtain ⟨hi, entry⟩ := slotEntry_slot allocated
  rw [entry, slotEntry, Nat.zero_div]
  intro same
  exact table.notNull token.1 ((Prod.mk.inj same).1 ▸ List.getElem_mem hi)

end BlockTable

def copyFront {α : Type*} (buffer new : List α) : List α := new ++ buffer.drop new.length

def paddingSlotId : Int := -1

/-- The slot buffer after `_get_slot_mapping`. -/
def fillSlotMapping (buffer : List Int) (numTokens : Nat) (slotMapping : List Int) : List Int :=
  let numActual := slotMapping.length
  let buffer := copyFront buffer slotMapping
  if numActual < numTokens then
    buffer.take numActual ++ List.replicate (numTokens - numActual) paddingSlotId ++ buffer.drop numTokens
  else buffer

def stackHiddenStates (numTokens : Nat) (target : Fin C → List ρ)
    (sized : ∀ c, (target c).length = numTokens) : List (Fin C → ρ) :=
  List.ofFn fun (t : Fin numTokens) c => (target c).get ⟨t, (sized c).symm ▸ t.is_lt⟩

/-- What one call of `propose` is given: a batch of tokens with their hidden states, a slot
mapping that may be padded, and the number of rows it runs with. -/
structure ProposeInput (table : BlockTable ι) (blockSize C : Nat) (ρ : Type*) where
  tokens : List (ι × Nat)
  distinct : tokens.Nodup
  allocated : ∀ token ∈ tokens, table.Allocated blockSize token
  target : Fin C → List ρ
  sized : ∀ c, (target c).length = tokens.length
  padding : Nat
  numInputTokens : Nat
  enough : tokens.length ≤ numInputTokens

namespace ProposeInput

variable {table : BlockTable ι} {blockSize : Nat} (input : ProposeInput table blockSize C ρ)

def stacked : List (Fin C → ρ) := stackHiddenStates input.tokens.length input.target input.sized

def slotMapping : List Int :=
  input.tokens.map (fun token => (table.slot blockSize token : Int)) ++
    List.replicate input.padding paddingSlotId

def row [DecidableEq ι] (token : ι × Nat) : Option (Fin C → ρ) := (input.tokens.zip input.stacked).lookup token

end ProposeInput

/-- The proposer's buffers and the cache of the worker. -/
structure CacheState (C : Nat) (ρ : Type*) where
  slotMappingBuffer : List Int
  hiddenStates : List (Fin C → ρ)
  kvCache : KvCache (Fin C → ρ)

/-- An indexed assignment. Where an index repeats, any one of its rows may be the one that stays. -/
structure Scatters {ρ : Type*} (entries : List (Nat × Nat)) (rows : List ρ) (kvCache kvCache' : KvCache ρ) :
    Prop where
  sized : rows.length = entries.length
  other : ∀ entry ∉ entries, kvCache' entry = kvCache entry
  written : ∀ entry ∈ entries, ∃ j : Nat, entries[j]? = some entry ∧ rows[j]? = some (kvCache' entry)

/-- `basic_cache` on a slot mapping with padding slots. -/
def BasicCache (blockSize : Nat) (toCache : List ρ) (slotMapping : List Int) (kvCache kvCache' : KvCache ρ) :
    Prop :=
  Scatters (slotMapping.map fun slot => slotEntry blockSize (max slot 0).toNat) toCache kvCache kvCache'

/-- Row by row, a later row overwrites an earlier one at its index. -/
theorem scatters_basicCache (blockSize : Nat) (kvCache : KvCache ρ) {slots : List Nat} {rows : List ρ}
    (sized : rows.length = slots.length) :
    Scatters (slots.map (slotEntry blockSize)) rows kvCache (basicCache blockSize kvCache slots rows) := by
  induction slots generalizing kvCache rows with
  | nil => exact ⟨by simpa using sized, fun _ _ => rfl, fun _ member => absurd member List.not_mem_nil⟩
  | cons slot slots ih =>
    obtain ⟨row, rows, rfl⟩ := List.exists_cons_of_length_eq_add_one sized
    have tail := ih (Function.update kvCache (slotEntry blockSize slot) row) (by simpa using sized)
    rw [basicCache, List.map_cons]
    refine ⟨by simpa using sized, fun entry absent => ?_, fun entry member => ?_⟩
    · obtain ⟨different, rest⟩ := List.ne_and_not_mem_of_not_mem_cons absent
      rw [tail.other entry rest, Function.update_of_ne different]
    · by_cases later : entry ∈ slots.map (slotEntry blockSize)
      · obtain ⟨j, here, stored⟩ := tail.written entry later
        exact ⟨j + 1, here, stored⟩
      · obtain rfl := (List.mem_cons.mp member).resolve_right later
        refine ⟨0, rfl, ?_⟩
        rw [tail.other _ later, Function.update_self]
        rfl

/-- One step of the server, as far as the cache goes. -/
structure Proposes {table : BlockTable ι} {blockSize : Nat} (input : ProposeInput table blockSize C ρ)
    (s s' : CacheState C ρ) : Prop where
  rows : input.numInputTokens ≤ s.hiddenStates.length
  slots : input.slotMapping.length ≤ s.slotMappingBuffer.length
  view : input.numInputTokens ≤ s.slotMappingBuffer.length
  hiddenStates : s'.hiddenStates = copyFront s.hiddenStates input.stacked
  slotMappingBuffer : s'.slotMappingBuffer =
    fillSlotMapping s.slotMappingBuffer input.numInputTokens input.slotMapping
  kvCache : BasicCache blockSize (s'.hiddenStates.take input.numInputTokens)
    (s'.slotMappingBuffer.take input.numInputTokens) s.kvCache s'.kvCache

/-- The step whose assignment goes row by row. -/
def CacheState.propose {table : BlockTable ι} {blockSize : Nat} (s : CacheState C ρ)
    (input : ProposeInput table blockSize C ρ) : CacheState C ρ :=
  let hiddenStates := copyFront s.hiddenStates input.stacked
  let slotMappingBuffer := fillSlotMapping s.slotMappingBuffer input.numInputTokens input.slotMapping
  { hiddenStates, slotMappingBuffer
    kvCache := basicCache blockSize s.kvCache
      ((slotMappingBuffer.take input.numInputTokens).map fun slot => (max slot 0).toNat)
      (hiddenStates.take input.numInputTokens) }

/-- Steps one after the other, from any contents of the buffers and of the cache. -/
inductive ProposeRun {table : BlockTable ι} {blockSize : Nat} :
    List (ProposeInput table blockSize C ρ) → CacheState C ρ → CacheState C ρ → Prop where
  | nil (s : CacheState C ρ) : ProposeRun [] s s
  | snoc {inputs : List (ProposeInput table blockSize C ρ)} {input : ProposeInput table blockSize C ρ}
      {s t u : CacheState C ρ} : ProposeRun inputs s t → Proposes input t u → ProposeRun (inputs ++ [input]) s u

section Views

theorem take_copyFront {α : Type*} (buffer new : List α) (n : Nat) (enough : new.length ≤ n) :
    (copyFront buffer new).take n = new ++ (buffer.drop new.length).take (n - new.length) := by
  rw [copyFront, List.take_append, List.take_of_length_le enough]

/-- Whatever the buffer held, behind the first slots it shows padding only. -/
theorem take_fillSlotMapping (buffer slots : List Int) (padding : Nat) {n : Nat} (enough : slots.length ≤ n) :
    (fillSlotMapping buffer n (slots ++ List.replicate padding paddingSlotId)).take n =
      slots ++ List.replicate (n - slots.length) paddingSlotId := by
  have size : (slots ++ List.replicate padding paddingSlotId).length = slots.length + padding := by simp
  rw [fillSlotMapping, size]
  split
  next short =>
    have joined : slots.length + padding + (n - (slots.length + padding)) = n := by omega
    have behind : padding + (n - (slots.length + padding)) = n - slots.length := by omega
    rw [copyFront, ← size, List.take_left, size, List.take_append_of_le_length (by simp; omega),
      List.take_of_length_le (by simp; omega), List.append_assoc, List.replicate_append_replicate, behind]
  next long =>
    rw [copyFront, List.take_append_of_le_length (by rw [size]; omega), List.take_append,
      List.take_of_length_le enough, List.take_replicate, Nat.min_eq_left (by omega)]

end Views

namespace ProposeInput

variable {table : BlockTable ι} {blockSize : Nat} (input : ProposeInput table blockSize C ρ)

theorem length_stacked : input.stacked.length = input.tokens.length := List.length_ofFn

/-- The entries the step writes to: those of its tokens, and the null block's first one. -/
theorem entries_view (buffer : List Int) :
    ((fillSlotMapping buffer input.numInputTokens input.slotMapping).take input.numInputTokens).map
        (fun slot => slotEntry blockSize (max slot 0).toNat) =
      input.tokens.map (fun token => slotEntry blockSize (table.slot blockSize token)) ++
        List.replicate (input.numInputTokens - input.tokens.length) (slotEntry blockSize 0) := by
  have shown := take_fillSlotMapping buffer
    (input.tokens.map fun token => (table.slot blockSize token : Int)) input.padding (by simpa using input.enough)
  rw [slotMapping, shown, List.map_append, List.map_map, List.map_replicate, List.length_map]
  congr 1
  apply List.map_congr_left
  intro token _
  rw [Function.comp_apply, max_eq_left (Int.natCast_nonneg _), Int.toNat_natCast]

variable [DecidableEq ι]

theorem lookup_zip {κ β : Type*} [BEq κ] [LawfulBEq κ] {keys : List κ} (distinct : keys.Nodup) {values : List β}
    {j : Nat} {key : κ} {value : β} (here : keys[j]? = some key) (stored : values[j]? = some value) :
    (keys.zip values).lookup key = some value := by
  induction keys generalizing values j with
  | nil => simp at here
  | cons first keys ih =>
    obtain ⟨fresh, rest⟩ := List.nodup_cons.mp distinct
    cases values with
    | nil => simp at stored
    | cons v values =>
      rw [List.zip_cons_cons, List.lookup_cons]
      cases j with
      | zero =>
        obtain rfl : first = key := by simpa using here
        obtain rfl : v = value := by simpa using stored
        rw [beq_self_eq_true]
      | succ j =>
        rw [List.getElem?_cons_succ] at here stored
        have other : (key == first) = false :=
          beq_false_of_ne fun same => fresh (same ▸ List.mem_of_getElem? here)
        rw [other]
        exact ih rest here stored

theorem row_eq_none {token : ι × Nat} (absent : token ∉ input.tokens) : input.row token = none := by
  rw [row, List.lookup_eq_none_iff]
  rintro ⟨other, stored⟩ member
  rw [bne_iff_ne]
  rintro rfl
  exact absent (List.of_mem_zip member).1

end ProposeInput

namespace Proposes

variable {table : BlockTable ι} {blockSize : Nat} {input : ProposeInput table blockSize C ρ}
  {s s' : CacheState C ρ} (step : Proposes input s s')

include step

theorem scatters : Scatters
    (input.tokens.map (fun token => slotEntry blockSize (table.slot blockSize token)) ++
      List.replicate (input.numInputTokens - input.tokens.length) (slotEntry blockSize 0))
    (input.stacked ++ (s.hiddenStates.drop input.tokens.length).take
      (input.numInputTokens - input.tokens.length)) s.kvCache s'.kvCache := by
  have written := step.kvCache
  rw [BasicCache, step.hiddenStates, step.slotMappingBuffer, input.entries_view,
    take_copyFront _ _ _ (by rw [input.length_stacked]; exact input.enough), input.length_stacked] at written
  exact written

/-- The step's own tokens are read back as it was given them. -/
theorem kvCache_written [DecidableEq ι] {token : ι × Nat} (member : token ∈ input.tokens) :
    input.row token = some (s'.kvCache (slotEntry blockSize (table.slot blockSize token))) := by
  have allocated := input.allocated token member
  obtain ⟨j, here, stored⟩ := step.scatters.written (slotEntry blockSize (table.slot blockSize token))
    (List.mem_append_left _ (List.mem_map.mpr ⟨token, member, rfl⟩))
  rcases Nat.lt_or_ge j input.tokens.length with inside | behind
  · rw [List.getElem?_append_left (by simpa using inside), List.getElem?_map] at here
    rw [List.getElem?_append_left (by rwa [input.length_stacked])] at stored
    obtain ⟨found, place, same⟩ := Option.map_eq_some_iff.mp here
    have own : found = token :=
      BlockTable.slotEntry_inj (input.allocated found (List.mem_of_getElem? place)) allocated same
    rw [own] at place
    exact ProposeInput.lookup_zip input.distinct place stored
  · rw [List.getElem?_append_right (by simpa using behind), List.getElem?_replicate] at here
    split at here
    · exact absurd (Option.some.inj here).symm (BlockTable.slotEntry_ne_null allocated)
    · contradiction

/-- Every other position of the requests keeps its row. -/
theorem kvCache_kept {token : ι × Nat} (allocated : table.Allocated blockSize token)
    (absent : token ∉ input.tokens) :
    s'.kvCache (slotEntry blockSize (table.slot blockSize token)) =
      s.kvCache (slotEntry blockSize (table.slot blockSize token)) := by
  apply step.scatters.other
  rw [List.mem_append, List.mem_map, List.mem_replicate]
  rintro (⟨other, member, same⟩ | ⟨-, null⟩)
  · exact absent (BlockTable.slotEntry_inj (input.allocated other member) allocated same ▸ member)
  · exact BlockTable.slotEntry_ne_null allocated null

end Proposes

theorem proposes_propose {table : BlockTable ι} {blockSize : Nat} {input : ProposeInput table blockSize C ρ}
    {s : CacheState C ρ} (rows : input.numInputTokens ≤ s.hiddenStates.length)
    (slots : input.slotMapping.length ≤ s.slotMappingBuffer.length)
    (view : input.numInputTokens ≤ s.slotMappingBuffer.length) : Proposes input s (s.propose input) := by
  refine ⟨rows, slots, view, rfl, rfl, ?_⟩
  have entries : ((s.propose input).slotMappingBuffer.take input.numInputTokens).length =
      input.numInputTokens := by
    have size := congrArg List.length (input.entries_view s.slotMappingBuffer)
    rw [List.length_map, List.length_append, List.length_map, List.length_replicate,
      Nat.add_sub_cancel' input.enough] at size
    exact size
  have sized : ((s.propose input).hiddenStates.take input.numInputTokens).length =
      (((s.propose input).slotMappingBuffer.take input.numInputTokens).map
        fun slot => (max slot 0).toNat).length := by
    rw [List.length_map, entries]
    simp only [CacheState.propose, copyFront, List.length_take, List.length_append, List.length_drop,
      input.length_stacked]
    have := input.enough
    omega
  have written := scatters_basicCache blockSize s.kvCache sized
  rw [List.map_map] at written
  exact written

section Run

variable [DecidableEq ι] {table : BlockTable ι} {blockSize : Nat}

def lastRow (inputs : List (ProposeInput table blockSize C ρ)) (token : ι × Nat) : Option (Fin C → ρ) :=
  inputs.foldl (fun earlier input => (input.row token).or earlier) none

theorem lastRow_concat (inputs : List (ProposeInput table blockSize C ρ))
    (input : ProposeInput table blockSize C ρ) (token : ι × Nat) :
    lastRow (inputs ++ [input]) token = (input.row token).or (lastRow inputs token) := by
  rw [lastRow, List.foldl_append, List.foldl_cons, List.foldl_nil, lastRow]

/-- A row that was written stands in the cache until its position is written again. -/
theorem ProposeRun.kvCache_lastRow {inputs : List (ProposeInput table blockSize C ρ)} {s t : CacheState C ρ}
    (run : ProposeRun inputs s t) {token : ι × Nat} {row : Fin C → ρ}
    (written : lastRow inputs token = some row) : table.Allocated blockSize token ∧
      t.kvCache (slotEntry blockSize (table.slot blockSize token)) = row := by
  induction run with
  | nil s => contradiction
  | @snoc inputs input s t u run step ih =>
    rw [lastRow_concat] at written
    by_cases member : token ∈ input.tokens
    · rw [step.kvCache_written member, Option.some_or] at written
      exact ⟨input.allocated token member, Option.some.inj written⟩
    · rw [input.row_eq_none member, Option.none_or] at written
      obtain ⟨allocated, held⟩ := ih written
      exact ⟨allocated, (step.kvCache_kept allocated member).trans held⟩

end Run

section Pair

def pairTable : BlockTable Bool where
  blockIds r := if r then [2, 1] else [3]
  distinct := by decide
  disjoint := by
    intro r r' apart
    cases r <;> cases r' <;> simp at apart ⊢
  notNull := by decide

def firstStep : ProposeInput pairTable 2 1 Nat where
  tokens := [(true, 0), (false, 0), (true, 1)]
  distinct := by decide
  allocated := by simp [BlockTable.Allocated, pairTable]
  target := fun _ => [10, 20, 11]
  sized := fun _ => rfl
  padding := 2
  numInputTokens := 4
  enough := by decide

def secondStep : ProposeInput pairTable 2 1 Nat where
  tokens := [(true, 2)]
  distinct := by decide
  allocated := by simp [BlockTable.Allocated, pairTable]
  target := fun _ => [12]
  sized := fun _ => rfl
  padding := 0
  numInputTokens := 2
  enough := by decide

def staleState : CacheState 1 Nat where
  slotMappingBuffer := [5, 5, 5, 5, 5, 5]
  hiddenStates := List.replicate 6 fun _ => 99
  kvCache := fun _ _ => 77

end Pair

end DreamAifd
