import DreamAifd.PoolIndex

/-! The references to the blocks of the pool. A ledger has how often each block is held; what the code
keeps of it are a count in every block and the list of the blocks that nobody holds. -/
namespace DreamAifd.KvCache.BlockPool

open FreeBlockQueue

variable {η : Type}

theorem mem_allBlocks {n : Nat} {block : BlockRef} : block ∈ allBlocks n ↔ ∃ i < n, block = .pooled i := by
  simp [allBlocks, eq_comm]

/-- The pool agrees with a ledger, and these are its free blocks in the order they will be taken. -/
structure Counted (pool : BlockPool η) (held : BlockRef → Nat) (free : List BlockRef) : Prop where
  represents : Represents pool.freeBlockQueue free
  free_iff : ∀ block, block ∈ free ↔
    block ∈ allBlocks pool.numGpuBlocks ∧ block ≠ pool.nullBlock ∧ held block = 0
  refCnt_eq : ∀ block ≠ pool.nullBlock, (pool.blocks block).refCnt = held block
  isNull_iff : ∀ block, (pool.blocks block).isNull = true ↔ block = pool.nullBlock
  null_mem : pool.nullBlock ∈ allBlocks pool.numGpuBlocks
  held_mem : ∀ block, held block ≠ 0 → block ∈ allBlocks pool.numGpuBlocks

namespace Counted

variable {pool pool' : BlockPool η} {held : BlockRef → Nat} {free : List BlockRef}

theorem numFree (counted : Counted pool held free) : pool.getNumFreeBlocks = free.length :=
  counted.represents.numFreeBlocks_eq

/-- A block of the pool that is not free can be put into the free list. -/
theorem fresh_of_mem {n : Nat} {block : BlockRef} (member : block ∈ allBlocks n) (absent : block ∉ free) :
    Fresh free block := by
  obtain ⟨i, _, rfl⟩ := mem_allBlocks.mp member
  simp [Fresh, absent]

theorem of_sameCounts (counted : Counted pool held free) (same : SameCounts pool pool') :
    Counted pool' held free where
  represents := same.freeBlockQueue ▸ counted.represents
  free_iff block := by
    rw [same.numGpuBlocks, same.nullBlock]
    exact counted.free_iff block
  refCnt_eq block := by
    rw [same.refCnt, same.nullBlock]
    exact counted.refCnt_eq block
  isNull_iff block := by
    rw [same.isNull, same.nullBlock]
    exact counted.isNull_iff block
  null_mem := by
    rw [same.nullBlock, same.numGpuBlocks]
    exact counted.null_mem
  held_mem block := by
    rw [same.numGpuBlocks]
    exact counted.held_mem block

/-- One more reference to a block, which is not free from then on. -/
theorem hold (counted : Counted pool held free) {block : BlockRef} (member : block ∈ allBlocks pool.numGpuBlocks)
    {queue : FreeBlockQueue} (represents : Represents queue (free.erase block)) :
    Counted ({ pool with freeBlockQueue := queue }.setBlock block
        { pool.blocks block with refCnt := (pool.blocks block).refCnt + 1 })
      (fun other => held other + [block].count other) (free.erase block) where
  represents := represents
  free_iff other := by
    rw [counted.represents.nodup.mem_erase_iff, counted.free_iff]
    by_cases same : other = block
    · simp [same]
    · simp [setBlock, same, Ne.symm same]
  refCnt_eq other different := by
    have before := counted.refCnt_eq other different
    by_cases same : other = block
    · subst same
      simp [setBlock, before]
    · simp [setBlock, same, before, Ne.symm same]
  isNull_iff other := by
    have before := counted.isNull_iff other
    by_cases same : other = block
    · subst same
      simpa [setBlock] using before
    · simpa [setBlock, same] using before
  null_mem := counted.null_mem
  held_mem other nonzero := by
    by_cases same : other = block
    · exact same ▸ member
    · refine counted.held_mem other fun zero => nonzero ?_
      simp [zero, Ne.symm same]

end Counted

/-- Every block touched is held once more for each time it is in the list, and leaves the free list. -/
theorem touch_spec {pool : BlockPool η} {held : BlockRef → Nat} {free blocks : List BlockRef}
    (counted : Counted pool held free) (members : ∀ block ∈ blocks, block ∈ allBlocks pool.numGpuBlocks) :
    ∃ pool', pool.touch blocks = .ok pool' ∧ SameIndex pool pool' ∧
      Counted pool' (fun block => held block + blocks.count block) (free.filter (· ∉ blocks)) := by
  induction blocks generalizing pool held free with
  | nil => exact ⟨pool, rfl, .refl pool, by simpa using counted⟩
  | cons block blocks ih =>
    have member := members block List.mem_cons_self
    obtain ⟨queue, taken, represents⟩ : ∃ queue,
        pool.removeIfFree block = .ok queue ∧ Represents queue (free.erase block) := by
      by_cases here : block ∈ free
      · obtain ⟨_, different, unheld⟩ := (counted.free_iff block).mp here
        have zero : (pool.blocks block).refCnt = 0 := by simp [counted.refCnt_eq block different, unheld]
        have real : ¬ (pool.blocks block).isNull = true := fun null => different ((counted.isNull_iff block).mp null)
        obtain ⟨front, back, split⟩ := List.append_of_mem here
        obtain ⟨queue, removed, represents⟩ := remove_spec (split ▸ counted.represents)
        refine ⟨queue, by rw [removeIfFree, if_pos ⟨zero, real⟩, removed], ?_⟩
        have nodup := split ▸ counted.represents.nodup
        have apart : block ∉ front := fun twice =>
          (List.nodup_append.mp nodup).2.2 block twice block List.mem_cons_self rfl
        rwa [split, List.erase_append_right _ apart, List.erase_cons_head]
      · have kept : ¬ ((pool.blocks block).refCnt = 0 ∧ ¬ (pool.blocks block).isNull = true) := by
          rintro ⟨zero, real⟩
          have different : block ≠ pool.nullBlock := fun same => real ((counted.isNull_iff block).mpr same)
          rw [counted.refCnt_eq block different] at zero
          exact here ((counted.free_iff block).mpr ⟨member, different, by exact_mod_cast zero⟩)
        refine ⟨pool.freeBlockQueue, by rw [removeIfFree, if_neg kept], ?_⟩
        rw [List.erase_of_not_mem here]
        exact counted.represents
    have held_once := counted.hold member represents
    obtain ⟨pool', touched, same, counted'⟩ := ih held_once fun other later =>
      members other (List.mem_cons_of_mem block later)
    refine ⟨pool', ?_, SameIndex.trans ?_ same, ?_⟩
    · rw [touch, taken]
      exact touched
    · have queued : SameIndex pool { pool with freeBlockQueue := queue } :=
        ⟨rfl, rfl, rfl, rfl, rfl, rfl, rfl, rfl, fun _ => rfl, fun _ => rfl, fun _ => rfl⟩
      exact queued.trans (.setRefCnt _ block _)
    · have counts : ∀ other, held other + [block].count other + blocks.count other =
          held other + (block :: blocks).count other := by
        intro other
        simp only [List.count_cons, List.count_nil]
        omega
      have remaining : (free.erase block).filter (· ∉ blocks) = free.filter (· ∉ block :: blocks) := by
        rw [counted.represents.nodup.erase_eq_filter, List.filter_filter]
        exact List.filter_congr fun other _ => by by_cases same : other = block <;> simp [same]
      rw [remaining] at counted'
      simpa only [counts] using counted'

/-- What the loop of `free_blocks` makes of the blocks, none of which is given back more often than held. -/
structure Released (blocks : BlockRef → KvCacheBlock η) (ordered : List BlockRef)
    (result : List BlockRef × List BlockRef × (BlockRef → KvCacheBlock η)) : Prop where
  withHash_sublist : result.1.Sublist ordered
  withoutHash_sublist : result.2.1.Sublist ordered
  withHash_nodup : result.1.Nodup
  withoutHash_nodup : result.2.1.Nodup
  mem_withHash : ∀ block, block ∈ result.1 ↔ block ∈ ordered ∧ (blocks block).isNull = false ∧
    (blocks block).refCnt = ordered.count block ∧ (blocks block).blockHash ≠ none
  mem_withoutHash : ∀ block, block ∈ result.2.1 ↔ block ∈ ordered ∧ (blocks block).isNull = false ∧
    (blocks block).refCnt = ordered.count block ∧ (blocks block).blockHash = none
  blocks_eq : ∀ block, result.2.2 block =
    { blocks block with refCnt := (blocks block).refCnt - ordered.count block }

theorem mem_ite_cons {α : Type*} {condition : Prop} [Decidable condition] {x y : α} {xs : List α} :
    x ∈ (if condition then y :: xs else xs) ↔ (x = y ∧ condition) ∨ x ∈ xs := by
  split <;> simp [*]

theorem releaseLoop_spec (blocks : BlockRef → KvCacheBlock η) {ordered : List BlockRef}
    (owned : ∀ block, (blocks block).isNull = false → (ordered.count block : Int) ≤ (blocks block).refCnt) :
    Released blocks ordered (releaseLoop blocks ordered) := by
  induction ordered generalizing blocks with
  | nil =>
    exact ⟨.slnil, .slnil, List.nodup_nil, List.nodup_nil, by simp [releaseLoop], by simp [releaseLoop],
      fun _ => by simp [releaseLoop]⟩
  | cons block rest ih =>
    set fields := { blocks block with refCnt := (blocks block).refCnt - 1 } with fields_eq
    have others : ∀ other ≠ block, Function.update blocks block fields other = blocks other := fun other different =>
      Function.update_of_ne different ..
    have self : Function.update blocks block fields block = fields := Function.update_self ..
    have count_self : (block :: rest).count block = rest.count block + 1 := List.count_cons_self
    have count_other : ∀ other ≠ block, (block :: rest).count other = rest.count other := fun other different =>
      List.count_cons_of_ne (Ne.symm different)
    have released := ih (Function.update blocks block fields) (by
      intro other real
      by_cases same : other = block
      · subst same
        rw [self] at real ⊢
        have := owned other real
        rw [count_self] at this
        simp only [fields_eq]
        push_cast at this
        omega
      · rw [others other same] at real ⊢
        exact count_other other same ▸ owned other real)
    -- A block that reaches zero here does not come again.
    have last : fields.refCnt = 0 → fields.isNull = false → block ∉ rest := by
      intro zero real member
      have := owned block real
      have := List.count_pos_iff.mpr member
      rw [count_self] at *
      simp only [fields_eq] at zero
      omega
    have fresh : ∀ {hashed : Prop}, fields.refCnt = 0 ∧ ¬ fields.isNull = true ∧ hashed → block ∉ rest :=
      fun reached => last reached.1 (by simpa using reached.2.1)
    -- Where a block is released, and that the first place differs from the later ones.
    have reaches : ∀ other, (other ∈ block :: rest ∧ (blocks other).isNull = false ∧
        (blocks other).refCnt = (block :: rest).count other) ↔
        (other = block ∧ fields.refCnt = 0 ∧ ¬ fields.isNull = true) ∨
          (other ∈ rest ∧ (Function.update blocks block fields other).isNull = false ∧
            (Function.update blocks block fields other).refCnt = rest.count other) := by
      intro other
      by_cases same : other = block
      · subst same
        have positive : other ∈ rest ↔ 0 < rest.count other := List.count_pos_iff.symm
        rw [self, count_self]
        simp only [fields_eq, List.mem_cons, true_or, true_and]
        push_cast
        constructor
        · rintro ⟨real, counted⟩
          by_cases later : other ∈ rest
          · exact .inr ⟨later, real, by omega⟩
          · exact .inl ⟨by have := mt positive.mpr later; omega, by simpa using real⟩
        · rintro (⟨zero, real⟩ | ⟨_, real, counted⟩)
          · have later := last zero (by simpa using real)
            exact ⟨by simpa using real, by have := mt positive.mpr later; omega⟩
          · exact ⟨real, by omega⟩
      · rw [others other same, count_other other same]
        simp [same]
    have hash_kept : ∀ other, (Function.update blocks block fields other).blockHash = (blocks other).blockHash := by
      intro other
      by_cases same : other = block
      · subst same
        rw [self]
      · rw [others other same]
    have members : ∀ (hashed : Option (η × Nat) → Prop) {later : List BlockRef}
        [Decidable (fields.refCnt = 0 ∧ ¬ fields.isNull = true ∧ hashed fields.blockHash)],
        (∀ other, other ∈ later ↔ other ∈ rest ∧ (Function.update blocks block fields other).isNull = false ∧
          (Function.update blocks block fields other).refCnt = rest.count other ∧ hashed (blocks other).blockHash) →
        ∀ other, other ∈ (if fields.refCnt = 0 ∧ ¬ fields.isNull = true ∧ hashed fields.blockHash then
            block :: later else later) ↔ other ∈ block :: rest ∧ (blocks other).isNull = false ∧
          (blocks other).refCnt = (block :: rest).count other ∧ hashed (blocks other).blockHash := by
      intro hashed later _ mem_later other
      have here := reaches other
      have same_hash : other = block → fields.blockHash = (blocks other).blockHash := fun same => same ▸ rfl
      rw [mem_ite_cons, mem_later]
      constructor
      · rintro (⟨same, zero, real, hash⟩ | ⟨member, real, counted, hash⟩)
        · obtain ⟨member, real, counted⟩ := here.mpr (.inl ⟨same, zero, real⟩)
          exact ⟨member, real, counted, same_hash same ▸ hash⟩
        · obtain ⟨member, real, counted⟩ := here.mpr (.inr ⟨member, real, counted⟩)
          exact ⟨member, real, counted, hash⟩
      · rintro ⟨member, real, counted, hash⟩
        refine (here.mp ⟨member, real, counted⟩).imp ?_ ?_
        · rintro ⟨same, zero, real⟩
          exact ⟨same, zero, real, (same_hash same).symm ▸ hash⟩
        · rintro ⟨member, real, counted⟩
          exact ⟨member, real, counted, hash⟩
    have shape : releaseLoop blocks (block :: rest) =
        (if fields.refCnt = 0 ∧ ¬ fields.isNull = true ∧ fields.blockHash ≠ none then
            block :: (releaseLoop (Function.update blocks block fields) rest).1
          else (releaseLoop (Function.update blocks block fields) rest).1,
          if fields.refCnt = 0 ∧ ¬ fields.isNull = true ∧ fields.blockHash = none then
            block :: (releaseLoop (Function.update blocks block fields) rest).2.1
          else (releaseLoop (Function.update blocks block fields) rest).2.1,
          (releaseLoop (Function.update blocks block fields) rest).2.2) := by
      have unfolded : releaseLoop blocks (block :: rest) =
          let later := releaseLoop (Function.update blocks block fields) rest
          if fields.refCnt = 0 ∧ ¬ fields.isNull = true then
            if fields.blockHash.isNone then (later.1, block :: later.2.1, later.2.2)
            else (block :: later.1, later.2.1, later.2.2)
          else later := rfl
      clear_value fields
      rw [unfolded]
      by_cases zero : fields.refCnt = 0 ∧ ¬ fields.isNull = true
      · cases hash : fields.blockHash <;> simp [zero]
      · have none_there : ∀ hashed : Prop, ¬ (fields.refCnt = 0 ∧ ¬ fields.isNull = true ∧ hashed) :=
          fun _ reached => zero ⟨reached.1, reached.2.1⟩
        simp only [if_neg zero, if_neg (none_there _)]
    rw [shape]
    refine ⟨?_, ?_, ?_, ?_, fun other => ?_, fun other => ?_, fun other => ?_⟩ <;> dsimp only
    · split
      · exact released.withHash_sublist.cons_cons block
      · exact released.withHash_sublist.cons block
    · split
      · exact released.withoutHash_sublist.cons_cons block
      · exact released.withoutHash_sublist.cons block
    · split
      next reached =>
        exact List.nodup_cons.mpr
          ⟨fun member => fresh reached (released.withHash_sublist.subset member), released.withHash_nodup⟩
      next => exact released.withHash_nodup
    · split
      next reached =>
        exact List.nodup_cons.mpr
          ⟨fun member => fresh reached (released.withoutHash_sublist.subset member), released.withoutHash_nodup⟩
      next => exact released.withoutHash_nodup
    · exact members (· ≠ none) (fun other => hash_kept other ▸ released.mem_withHash other) other
    · exact members (· = none) (fun other => hash_kept other ▸ released.mem_withoutHash other) other
    · rw [released.blocks_eq]
      by_cases same : other = block
      · subst same
        rw [self, count_self]
        simp only [fields_eq]
        congr 1
        push_cast
        omega
      · rw [others other same, count_other other same]

/-- Blocks given back: those nobody holds any more go to the free list, hashed ones to its end. -/
theorem freeBlocks_spec {pool : BlockPool η} {held : BlockRef → Nat} {free ordered : List BlockRef}
    (counted : Counted pool held free)
    (owned : ∀ block ≠ pool.nullBlock, ordered.count block ≤ held block) :
    ∃ pool' withHash withoutHash, pool.freeBlocks ordered = .ok pool' ∧ SameIndex pool pool' ∧
      Counted pool' (fun block => held block - ordered.count block) (withoutHash ++ free ++ withHash) ∧
      withHash.Sublist ordered ∧ withoutHash.Sublist ordered ∧
      (∀ block ∈ withHash, (pool.blocks block).blockHash ≠ none) ∧
      (∀ block ∈ withoutHash, (pool.blocks block).blockHash = none) := by
  have real_iff : ∀ block, (pool.blocks block).isNull = false ↔ block ≠ pool.nullBlock := by
    intro block
    rw [← Bool.not_eq_true]
    exact not_congr (counted.isNull_iff block)
  have released : Released pool.blocks ordered _ := releaseLoop_spec pool.blocks fun block real => by
    have different := (real_iff block).mp real
    rw [counted.refCnt_eq block different]
    exact_mod_cast owned block different
  set withHash := (releaseLoop pool.blocks ordered).1
  set withoutHash := (releaseLoop pool.blocks ordered).2.1
  have gone : ∀ block, (block ∈ withHash ∨ block ∈ withoutHash) ↔
      block ∈ ordered ∧ block ≠ pool.nullBlock ∧ held block = ordered.count block := by
    intro block
    rw [released.mem_withHash, released.mem_withoutHash, real_iff]
    by_cases different : block = pool.nullBlock
    · simp [different]
    · rw [counted.refCnt_eq block different]
      norm_cast
      tauto
  have held_pos : ∀ block, block ∈ withHash ∨ block ∈ withoutHash → held block ≠ 0 := by
    intro block member
    obtain ⟨member, _, same⟩ := (gone block).mp member
    rw [same]
    exact (List.count_pos_iff.mpr member).ne'
  have fresh : ∀ block, block ∈ withHash ∨ block ∈ withoutHash → Fresh free block := fun block member =>
    Counted.fresh_of_mem (counted.held_mem block (held_pos block member)) fun here =>
      held_pos block member ((counted.free_iff block).mp here).2.2
  obtain ⟨queue, prepended, represents⟩ := prependN_spec counted.represents released.withoutHash_nodup
    fun block member => fresh block (.inr member)
  have apart : ∀ block ∈ withHash, block ∉ withoutHash := fun block with_hash without_hash =>
    ((released.mem_withHash block).mp with_hash).2.2.2 ((released.mem_withoutHash block).mp without_hash).2.2.2
  obtain ⟨queue', appended, represents'⟩ := appendN_spec represents released.withHash_nodup fun block member => by
    have := fresh block (.inl member)
    simp only [Fresh, List.mem_cons, List.mem_append, not_or] at this ⊢
    exact ⟨this.1, ⟨apart block member, this.2.1⟩, this.2.2⟩
  refine ⟨{ pool with blocks := (releaseLoop pool.blocks ordered).2.2, freeBlockQueue := queue' }, withHash,
    withoutHash, ?_, ?_, ?_, released.withHash_sublist, released.withoutHash_sublist,
    fun block member => ((released.mem_withHash block).mp member).2.2.2,
    fun block member => ((released.mem_withoutHash block).mp member).2.2.2⟩
  · rw [freeBlocks]
    exact bind_eq_ok.mpr ⟨queue, prepended, bind_eq_ok.mpr ⟨queue', appended, rfl⟩⟩
  · exact ⟨rfl, rfl, rfl, rfl, rfl, rfl, rfl, rfl, fun block => by simp [released.blocks_eq],
      fun block => by simp [released.blocks_eq], fun block => by simp [released.blocks_eq]⟩
  · refine ⟨represents', fun block => ?_, fun block different => ?_, fun block => ?_, counted.null_mem,
      fun block nonzero => counted.held_mem block fun zero => nonzero (by simp [zero])⟩
    · have released_here := gone block
      have free_here := counted.free_iff block
      simp only [List.mem_append]
      by_cases different : block = pool.nullBlock
      · simp only [different, ne_eq, not_true_eq_false, false_and, and_false, iff_false] at released_here free_here ⊢
        tauto
      · have bound := owned block different
        have in_pool := counted.held_mem block
        have counts : block ∈ ordered ↔ 0 < ordered.count block := List.count_pos_iff.symm
        rw [counts] at released_here
        constructor
        · intro member
          by_cases there : block ∈ free
          · obtain ⟨member, _, zero⟩ := free_here.mp there
            exact ⟨member, different, by omega⟩
          · obtain ⟨positive, _, same⟩ := released_here.mp (by tauto)
            exact ⟨in_pool (by omega), different, by omega⟩
        · rintro ⟨member, _, zero⟩
          by_cases unheld : held block = 0
          · have := free_here.mpr ⟨member, different, unheld⟩
            tauto
          · have := released_here.mpr ⟨by omega, different, by omega⟩
            tauto
    · have bound := owned block different
      simp only [released.blocks_eq, counted.refCnt_eq block different]
      omega
    · simp only [released.blocks_eq]
      exact counted.isNull_iff block

variable [DecidableEq η]

structure Allocated (pool : BlockPool η) (ret : List BlockRef) (pool' : BlockPool η) : Prop where
  steps : IndexSteps (· ∈ ret) pool pool'
  numGpuBlocks : pool'.numGpuBlocks = pool.numGpuBlocks
  enableCaching : pool'.enableCaching = pool.enableCaching
  hashBlockSize : pool'.hashBlockSize = pool.hashBlockSize
  freeBlockQueue : pool'.freeBlockQueue = pool.freeBlockQueue
  nullBlock : pool'.nullBlock = pool.nullBlock
  enableKvCacheEvents : pool'.enableKvCacheEvents = pool.enableKvCacheEvents
  refCnt : ∀ block, (pool'.blocks block).refCnt = (pool.blocks block).refCnt + ret.count block
  isNull : ∀ block, (pool'.blocks block).isNull = (pool.blocks block).isNull
  keysOf : ∀ block, pool'.keysOf block =
    if pool.enableCaching = true ∧ block ∈ ret then [] else pool.keysOf block

theorem allocateLoop_spec {pool : BlockPool η} {ret : List BlockRef} (indexed : Indexed pool) (distinct : ret.Nodup)
    (unheld : ∀ block ∈ ret, (pool.blocks block).refCnt = 0) :
    ∃ pool', pool.allocateLoop ret = .ok pool' ∧ Allocated pool ret pool' := by
  induction ret generalizing pool with
  | nil =>
    exact ⟨pool, rfl, .refl, rfl, rfl, rfl, rfl, rfl, rfl, by simp, fun _ => rfl, fun _ => by simp⟩
  | cons block ret ih =>
    obtain ⟨fresh, distinct⟩ := List.nodup_cons.mp distinct
    set cleared := if pool.enableCaching then pool.maybeEvictCachedBlock block else pool with cleared_eq
    have evicted := maybeEvictCachedBlock_spec indexed block
    have counts : SameCounts pool cleared := by
      rw [cleared_eq]
      split
      · exact evicted.sameCounts
      · exact .refl pool
    have steps : IndexSteps (· ∈ block :: ret) pool cleared := by
      rw [cleared_eq]
      split
      · exact .evict .refl List.mem_cons_self evicted
      · exact .refl
    have keys : ∀ other, cleared.keysOf other =
        if pool.enableCaching = true ∧ other = block then [] else pool.keysOf other := by
      intro other
      rw [cleared_eq]
      by_cases caching : pool.enableCaching = true
      · by_cases same : other = block
        · simp [caching, same, evicted.keysOf_self]
        · simp [caching, same, evicted.keysOf_other other same]
      · simp [caching]
    set fields := { cleared.blocks block with refCnt := (cleared.blocks block).refCnt + 1 } with fields_eq
    have given : SameIndex cleared (cleared.setBlock block fields) := .setRefCnt _ _ _
    have refCnt_set : ∀ other, ((cleared.setBlock block fields).blocks other).refCnt =
        (pool.blocks other).refCnt + [block].count other := by
      intro other
      by_cases same : other = block
      · subst same
        simp [setBlock, fields_eq, counts.refCnt]
      · simp [setBlock, same, counts.refCnt, Ne.symm same]
    obtain ⟨pool', ran, rest⟩ := ih (steps.indexed indexed |> given.indexed) distinct fun other member => by
      have different : other ≠ block := fun same => fresh (same ▸ member)
      rw [refCnt_set, unheld other (List.mem_cons_of_mem block member)]
      simp [Ne.symm different]
    have zero : ¬ (cleared.blocks block).refCnt ≠ 0 := by
      rw [counts.refCnt, unheld block List.mem_cons_self]
      simp
    refine ⟨pool', ?_, ?_⟩
    · rw [allocateLoop]
      exact (if_neg zero).trans ran
    · have whole : IndexSteps (· ∈ block :: ret) pool pool' :=
        (steps.count given).trans (rest.steps.mono fun _ => List.mem_cons_of_mem block)
      refine ⟨whole, rest.numGpuBlocks.trans counts.numGpuBlocks, rest.enableCaching.trans counts.enableCaching,
        rest.hashBlockSize.trans counts.hashBlockSize, rest.freeBlockQueue.trans counts.freeBlockQueue,
        rest.nullBlock.trans counts.nullBlock, rest.enableKvCacheEvents.trans counts.enableKvCacheEvents,
        fun other => ?_, fun other => ?_, fun other => ?_⟩
      · rw [rest.refCnt, refCnt_set, List.count_cons, List.count_cons, List.count_nil]
        push_cast
        ring
      · rw [rest.isNull, given.isNull, counts.isNull]
      · have caching : (cleared.setBlock block fields).enableCaching = pool.enableCaching := counts.enableCaching
        rw [rest.keysOf, caching, given.keysOf, keys]
        by_cases on : pool.enableCaching = true <;> by_cases same : other = block <;> simp [on, same]

/-- Where enough blocks are free, the first of them are given out, each to one holder, and are found no more. -/
theorem getNewBlocks_spec {pool : BlockPool η} {held : BlockRef → Nat} {free : List BlockRef} {n : Nat}
    (counted : Counted pool held free) (indexed : Indexed pool) (enough : n ≤ free.length) :
    ∃ pool', pool.getNewBlocks n = .ok (free.take n, pool') ∧
      Counted pool' (fun block => held block + (free.take n).count block) (free.drop n) ∧
      IndexSteps (· ∈ free.take n) pool pool' ∧ pool'.enableCaching = pool.enableCaching ∧
      pool'.hashBlockSize = pool.hashBlockSize ∧ pool'.enableKvCacheEvents = pool.enableKvCacheEvents ∧
      pool'.numGpuBlocks = pool.numGpuBlocks ∧ pool'.nullBlock = pool.nullBlock ∧
      (∀ block, pool'.keysOf block =
        if pool.enableCaching = true ∧ block ∈ free.take n then [] else pool.keysOf block) := by
  have size : (free.take n).length = n := List.length_take_of_le enough
  obtain ⟨queue, popped, represents⟩ := popleftN_spec (free.take n) (free.drop n)
    (by rw [List.take_append_drop]; exact counted.represents)
  rw [size] at popped
  have distinct : (free.take n).Nodup := counted.represents.nodup.sublist (List.take_sublist n free)
  have popped_index : SameIndex pool { pool with freeBlockQueue := queue } :=
    ⟨rfl, rfl, rfl, rfl, rfl, rfl, rfl, rfl, fun _ => rfl, fun _ => rfl, fun _ => rfl⟩
  have unheld : ∀ block ∈ free.take n, held block = 0 ∧ block ≠ pool.nullBlock := fun block member =>
    have here := (counted.free_iff block).mp (List.mem_of_mem_take member)
    ⟨here.2.2, here.2.1⟩
  obtain ⟨pool', ran, allocated⟩ := allocateLoop_spec (popped_index.indexed indexed) distinct fun block member => by
    rw [counted.refCnt_eq block (unheld block member).2, (unheld block member).1, Nat.cast_zero]
  refine ⟨pool', ?_, ?_, (IndexSteps.refl.count popped_index).trans allocated.steps, allocated.enableCaching,
    allocated.hashBlockSize, allocated.enableKvCacheEvents, allocated.numGpuBlocks, allocated.nullBlock,
    fun block => (allocated.keysOf block).trans (by rw [popped_index.keysOf])⟩
  · have enough_left : ¬ pool.getNumFreeBlocks < n := by rw [counted.numFree]; omega
    rw [getNewBlocks, if_neg enough_left]
    exact bind_eq_ok.mpr ⟨_, popped, bind_eq_ok.mpr ⟨pool', ran, rfl⟩⟩
  · refine ⟨allocated.freeBlockQueue ▸ represents, fun block => ?_, fun block different => ?_, fun block => ?_, ?_,
      fun block nonzero => ?_⟩
    · rw [allocated.numGpuBlocks, allocated.nullBlock]
      have here := counted.free_iff block
      have apart := List.disjoint_take_drop counted.represents.nodup (le_refl n)
      have whole : block ∈ free ↔ block ∈ free.take n ∨ block ∈ free.drop n := by
        rw [← List.mem_append, List.take_append_drop]
      have counts : 0 < (free.take n).count block ↔ block ∈ free.take n := List.count_pos_iff
      have not_both := @apart block
      constructor
      · intro member
        obtain ⟨member', different, zero⟩ := here.mp (whole.mpr (.inr member))
        have absent : ¬ block ∈ free.take n := fun other => not_both other member
        exact ⟨member', different, by have := mt counts.mp absent; omega⟩
      · rintro ⟨member, different, zero⟩
        have none_taken : block ∉ free.take n := fun other => by have := counts.mpr other; omega
        exact (whole.mp (here.mpr ⟨member, different, by omega⟩)).resolve_left none_taken
    · rw [allocated.refCnt, allocated.nullBlock] at *
      rw [counted.refCnt_eq block different]
      push_cast
      rfl
    · rw [allocated.isNull, allocated.nullBlock]
      exact counted.isNull_iff block
    · rw [allocated.numGpuBlocks, allocated.nullBlock]
      exact counted.null_mem
    · rw [allocated.numGpuBlocks]
      by_cases member : block ∈ free.take n
      · exact ((counted.free_iff block).mp (List.mem_of_mem_take member)).1
      · refine counted.held_mem block fun zero => nonzero ?_
        simp only [zero, Nat.zero_add]
        exact List.count_eq_zero_of_not_mem member

end DreamAifd.KvCache.BlockPool
