import DreamAifd.BlockPool

/-! The index of the block pool, from hashes to blocks and from blocks to their hashes. The two
directions are kept apart by the code and agree after every one of its operations. -/
namespace DreamAifd.KvCache

variable {η : Type}

namespace BlockPool

def keysOf (pool : BlockPool η) (block : BlockRef) : List (η × Nat) :=
  (pool.blocks block).blockHash.toList ++ (pool.cachedBlockHashesByBlock.get? block).getD []

/-- The operations of the index leave the free list and the counts of references alone. -/
structure SameCounts (pool pool' : BlockPool η) : Prop where
  numGpuBlocks : pool'.numGpuBlocks = pool.numGpuBlocks
  enableCaching : pool'.enableCaching = pool.enableCaching
  hashBlockSize : pool'.hashBlockSize = pool.hashBlockSize
  freeBlockQueue : pool'.freeBlockQueue = pool.freeBlockQueue
  nullBlock : pool'.nullBlock = pool.nullBlock
  enableKvCacheEvents : pool'.enableKvCacheEvents = pool.enableKvCacheEvents
  refCnt : ∀ block, (pool'.blocks block).refCnt = (pool.blocks block).refCnt
  isNull : ∀ block, (pool'.blocks block).isNull = (pool.blocks block).isNull

theorem SameCounts.refl (pool : BlockPool η) : SameCounts pool pool :=
  ⟨rfl, rfl, rfl, rfl, rfl, rfl, fun _ => rfl, fun _ => rfl⟩

theorem SameCounts.trans {pool pool' pool'' : BlockPool η} (first : SameCounts pool pool')
    (second : SameCounts pool' pool'') : SameCounts pool pool'' where
  numGpuBlocks := second.numGpuBlocks.trans first.numGpuBlocks
  enableCaching := second.enableCaching.trans first.enableCaching
  hashBlockSize := second.hashBlockSize.trans first.hashBlockSize
  freeBlockQueue := second.freeBlockQueue.trans first.freeBlockQueue
  nullBlock := second.nullBlock.trans first.nullBlock
  enableKvCacheEvents := second.enableKvCacheEvents.trans first.enableKvCacheEvents
  refCnt block := (second.refCnt block).trans (first.refCnt block)
  isNull block := (second.isNull block).trans (first.isNull block)

theorem SameCounts.setBlock {pool : BlockPool η} {block : BlockRef} {fields : KvCacheBlock η}
    (refCnt : fields.refCnt = (pool.blocks block).refCnt) (isNull : fields.isNull = (pool.blocks block).isNull) :
    SameCounts pool (pool.setBlock block fields) := by
  refine ⟨rfl, rfl, rfl, rfl, rfl, rfl, fun other => ?_, fun other => ?_⟩ <;>
  · by_cases same : other = block
    · subst same
      simpa [BlockPool.setBlock]
    · simp [BlockPool.setBlock, same]

theorem SameCounts.emitBlockRemovedEvents (pool : BlockPool η) (blockHashes : List (η × Nat)) :
    SameCounts pool (pool.emitBlockRemovedEvents blockHashes) := by
  unfold BlockPool.emitBlockRemovedEvents
  split <;> exact ⟨rfl, rfl, rfl, rfl, rfl, rfl, fun _ => rfl, fun _ => rfl⟩

/-- The operations on the counts leave the index alone. -/
structure SameIndex (pool pool' : BlockPool η) : Prop where
  numGpuBlocks : pool'.numGpuBlocks = pool.numGpuBlocks
  enableCaching : pool'.enableCaching = pool.enableCaching
  hashBlockSize : pool'.hashBlockSize = pool.hashBlockSize
  nullBlock : pool'.nullBlock = pool.nullBlock
  enableKvCacheEvents : pool'.enableKvCacheEvents = pool.enableKvCacheEvents
  cachedBlockHashToBlock : pool'.cachedBlockHashToBlock = pool.cachedBlockHashToBlock
  cachedBlockHashesByBlock : pool'.cachedBlockHashesByBlock = pool.cachedBlockHashesByBlock
  kvEventQueue : pool'.kvEventQueue = pool.kvEventQueue
  blockHash : ∀ block, (pool'.blocks block).blockHash = (pool.blocks block).blockHash
  numTokens : ∀ block, (pool'.blocks block).blockHashNumTokens = (pool.blocks block).blockHashNumTokens
  isNull : ∀ block, (pool'.blocks block).isNull = (pool.blocks block).isNull

theorem SameIndex.refl (pool : BlockPool η) : SameIndex pool pool :=
  ⟨rfl, rfl, rfl, rfl, rfl, rfl, rfl, rfl, fun _ => rfl, fun _ => rfl, fun _ => rfl⟩

theorem SameIndex.trans {pool pool' pool'' : BlockPool η} (first : SameIndex pool pool')
    (second : SameIndex pool' pool'') : SameIndex pool pool'' where
  numGpuBlocks := second.numGpuBlocks.trans first.numGpuBlocks
  enableCaching := second.enableCaching.trans first.enableCaching
  hashBlockSize := second.hashBlockSize.trans first.hashBlockSize
  nullBlock := second.nullBlock.trans first.nullBlock
  enableKvCacheEvents := second.enableKvCacheEvents.trans first.enableKvCacheEvents
  cachedBlockHashToBlock := second.cachedBlockHashToBlock.trans first.cachedBlockHashToBlock
  cachedBlockHashesByBlock := second.cachedBlockHashesByBlock.trans first.cachedBlockHashesByBlock
  kvEventQueue := second.kvEventQueue.trans first.kvEventQueue
  blockHash block := (second.blockHash block).trans (first.blockHash block)
  numTokens block := (second.numTokens block).trans (first.numTokens block)
  isNull block := (second.isNull block).trans (first.isNull block)

theorem SameIndex.keysOf {pool pool' : BlockPool η} (same : SameIndex pool pool') (block : BlockRef) :
    pool'.keysOf block = pool.keysOf block := by
  rw [BlockPool.keysOf, BlockPool.keysOf, same.blockHash, same.cachedBlockHashesByBlock]

theorem SameIndex.setRefCnt (pool : BlockPool η) (block : BlockRef) (refCnt : Int) :
    SameIndex pool (pool.setBlock block { pool.blocks block with refCnt }) := by
  refine ⟨rfl, rfl, rfl, rfl, rfl, rfl, rfl, rfl, fun other => ?_, fun other => ?_, fun other => ?_⟩ <;>
  · by_cases same : other = block
    · subst same
      simp [BlockPool.setBlock]
    · simp [BlockPool.setBlock, same]

end BlockPool

variable [DecidableEq η]

namespace BlockHashToBlockMap

/-- The blocks under a key, whichever of the two forms they are kept in. -/
def entries (cache : BlockHashToBlockMap η) (key : η × Nat) : List BlockRef :=
  (cache.get? key).elim [] CachedBlocks.toList

@[simp] theorem entries_set (cache : BlockHashToBlockMap η) (key other : η × Nat) (blocks : CachedBlocks) :
    entries (cache.set key blocks) other = if other = key then blocks.toList else entries cache other := by
  unfold entries
  rw [Dict.get?_set]
  split <;> rfl

@[simp] theorem entries_erase (cache : BlockHashToBlockMap η) (key other : η × Nat) :
    entries (cache.erase key) other = if other = key then [] else entries cache other := by
  unfold entries
  rw [Dict.get?_erase]
  split <;> rfl

theorem getOneBlock_eq (cache : BlockHashToBlockMap η) (key : η × Nat) :
    getOneBlock cache key = (entries cache key).head? := by
  unfold getOneBlock entries
  cases cache.get? key with
  | none => rfl
  | some blocks => cases blocks <;> rfl

theorem contain_iff (cache : BlockHashToBlockMap η) (key : η × Nat) (block : BlockRef) :
    contain cache key block = true ↔ block ∈ entries cache key := by
  unfold contain entries
  cases cache.get? key with
  | none => simp
  | some blocks => cases blocks <;> simp [CachedBlocks.toList, eq_comm]

theorem entries_insert (cache : BlockHashToBlockMap η) (key other : η × Nat) (block : BlockRef) :
    entries (insert cache key block) other =
      if other = key then (if block ∈ entries cache key then entries cache key else entries cache key ++ [block])
      else entries cache other := by
  have here : entries cache key = (cache.get? key).elim [] CachedBlocks.toList := rfl
  unfold insert
  cases found : cache.get? key with
  | none => simp [here, found, CachedBlocks.toList]
  | some blocks =>
    cases blocks with
    | single first =>
      by_cases same : first = block <;> simp [here, found, CachedBlocks.toList, same, eq_comm (a := block)]
    | dict blocks => simp [here, found, CachedBlocks.toList]

theorem pop_fst (cache : BlockHashToBlockMap η) (key : η × Nat) (block : BlockRef) :
    (pop cache key block).1 = true ↔ block ∈ entries cache key := by
  unfold pop entries
  cases cache.get? key with
  | none => simp
  | some blocks =>
    cases blocks with
    | single first => by_cases same : first = block <;> simp [same, CachedBlocks.toList, eq_comm (a := block)]
    | dict blocks => simp [CachedBlocks.toList]

theorem entries_pop (cache : BlockHashToBlockMap η) (key other : η × Nat) (block : BlockRef) :
    entries (pop cache key block).2 other =
      if other = key then (entries cache key).erase block else entries cache other := by
  have here : entries cache key = (cache.get? key).elim [] CachedBlocks.toList := rfl
  unfold pop
  cases found : cache.get? key with
  | none =>
    by_cases at_key : other = key
    · simp [at_key, here, found]
    · simp [at_key]
  | some blocks =>
    cases blocks with
    | single first =>
      by_cases same : first = block <;> by_cases at_key : other = key <;>
        simp [same, at_key, here, found, CachedBlocks.toList]
    | dict blocks =>
      by_cases none_left : blocks.erase block = [] <;> simp [none_left, here, found, CachedBlocks.toList]

end BlockHashToBlockMap

namespace BlockPool

open BlockHashToBlockMap

abbrev under (pool : BlockPool η) (key : η × Nat) : List BlockRef := entries pool.cachedBlockHashToBlock key

/-- The two directions agree. -/
structure Indexed (pool : BlockPool η) : Prop where
  under_iff : ∀ key block, block ∈ pool.under key ↔ key ∈ pool.keysOf block
  under_nodup : ∀ key, (pool.under key).Nodup
  keys_nodup : ∀ block, (pool.keysOf block).Nodup
  first_hash : ∀ block, (pool.blocks block).blockHash = none → pool.keysOf block = []
  numTokens_iff : ∀ block, (pool.blocks block).blockHash = none ↔ (pool.blocks block).blockHashNumTokens = none

theorem SameIndex.indexed {pool pool' : BlockPool η} (same : SameIndex pool pool') (indexed : Indexed pool) :
    Indexed pool' where
  under_iff key block := by
    rw [BlockPool.under, same.cachedBlockHashToBlock, same.keysOf]
    exact indexed.under_iff key block
  under_nodup key := by
    rw [BlockPool.under, same.cachedBlockHashToBlock]
    exact indexed.under_nodup key
  keys_nodup block := same.keysOf block ▸ indexed.keys_nodup block
  first_hash block := by
    rw [same.keysOf, same.blockHash]
    exact indexed.first_hash block
  numTokens_iff block := by
    rw [same.blockHash, same.numTokens]
    exact indexed.numTokens_iff block

theorem popKeys_spec (cache : BlockHashToBlockMap η) {block : BlockRef} {keys : List (η × Nat)}
    (distinct : keys.Nodup) (found : ∀ key ∈ keys, block ∈ entries cache key) :
    (popKeys cache block keys).1 = keys ∧ ∀ other, entries (popKeys cache block keys).2 other =
      if other ∈ keys then (entries cache other).erase block else entries cache other := by
  induction keys generalizing cache with
  | nil => exact ⟨rfl, fun _ => by simp [popKeys]⟩
  | cons key keys ih =>
    obtain ⟨fresh, distinct⟩ := List.nodup_cons.mp distinct
    have here : (pop cache key block).1 = true := (pop_fst cache key block).mpr (found key List.mem_cons_self)
    have later : ∀ other ∈ keys, block ∈ entries (pop cache key block).2 other := by
      intro other member
      have different : other ≠ key := fun same => fresh (same ▸ member)
      rw [entries_pop, if_neg different]
      exact found other (List.mem_cons_of_mem key member)
    obtain ⟨removed, rest⟩ := ih (pop cache key block).2 distinct later
    simp only [popKeys, here, if_true, removed]
    refine ⟨trivial, fun other => ?_⟩
    rw [rest, entries_pop]
    by_cases same : other = key
    · subst same
      simp [fresh]
    · simp [same]

variable {pool : BlockPool η}

structure Unindexed (pool : BlockPool η) (block : BlockRef) (pool' : BlockPool η) : Prop where
  sameCounts : SameCounts pool pool'
  under_eq : ∀ key, pool'.under key = (pool.under key).erase block
  keysOf_self : pool'.keysOf block = []
  keysOf_other : ∀ other ≠ block, pool'.keysOf other = pool.keysOf other
  blocks_other : ∀ other ≠ block, pool'.blocks other = pool.blocks other
  blockHash_self : (pool'.blocks block).blockHash = none
  numTokens_self : (pool'.blocks block).blockHashNumTokens = none

theorem Unindexed.indexed {block : BlockRef} {pool' : BlockPool η} (unindexed : Unindexed pool block pool')
    (indexed : Indexed pool) : Indexed pool' where
  under_iff key other := by
    rw [unindexed.under_eq, (indexed.under_nodup key).mem_erase_iff, indexed.under_iff]
    by_cases same : other = block
    · simp [same, unindexed.keysOf_self]
    · simp [same, unindexed.keysOf_other other same]
  under_nodup key := unindexed.under_eq key ▸ (indexed.under_nodup key).erase block
  keys_nodup other := by
    by_cases same : other = block
    · simp [same, unindexed.keysOf_self]
    · exact unindexed.keysOf_other other same ▸ indexed.keys_nodup other
  first_hash other := by
    by_cases same : other = block
    · exact fun _ => same ▸ unindexed.keysOf_self
    · rw [unindexed.keysOf_other other same, unindexed.blocks_other other same]
      exact indexed.first_hash other
  numTokens_iff other := by
    by_cases same : other = block
    · simp [same, unindexed.blockHash_self, unindexed.numTokens_self]
    · rw [unindexed.blocks_other other same]
      exact indexed.numTokens_iff other

theorem removeCachedBlockHashes_spec (indexed : Indexed pool) (block : BlockRef) :
    (pool.removeCachedBlockHashes block).1 = pool.keysOf block ∧
      Unindexed pool block (pool.removeCachedBlockHashes block).2 ∧
      (pool.removeCachedBlockHashes block).2.kvEventQueue = pool.kvEventQueue := by
  have outside : ∀ key ∉ pool.keysOf block, (pool.under key).erase block = pool.under key := fun key absent =>
    List.erase_of_not_mem fun member => absent ((indexed.under_iff key block).mp member)
  unfold removeCachedBlockHashes
  by_cases none_there : pool.keysOf block = []
  · have hash_none : (pool.blocks block).blockHash = none := by
      simpa using (List.append_eq_nil_iff.mp none_there).1
    have condition : (pool.blocks block).blockHash.toList ++
        (pool.cachedBlockHashesByBlock.get? block).getD [] = [] := none_there
    simp only [condition, if_true]
    refine ⟨none_there.symm, ?_, trivial⟩
    exact {
      sameCounts := ⟨rfl, rfl, rfl, rfl, rfl, rfl, fun _ => rfl, fun _ => rfl⟩
      under_eq := fun key => (outside key (by simp [none_there])).symm
      keysOf_self := by simp [keysOf, hash_none, Dict.get?_erase]
      keysOf_other := fun other different => by simp [keysOf, Dict.get?_erase, different]
      blocks_other := fun _ _ => rfl
      blockHash_self := hash_none
      numTokens_self := (indexed.numTokens_iff block).mp hash_none }
  · have condition : ¬ (pool.blocks block).blockHash.toList ++
        (pool.cachedBlockHashesByBlock.get? block).getD [] = [] := none_there
    obtain ⟨removed, rest⟩ := popKeys_spec pool.cachedBlockHashToBlock (indexed.keys_nodup block)
      fun key member => (indexed.under_iff key block).mpr member
    rw [if_neg condition]
    refine ⟨removed, ?_, rfl⟩
    exact {
      sameCounts :=
        have unlisted : SameCounts pool { pool with
            cachedBlockHashToBlock := (popKeys pool.cachedBlockHashToBlock block (pool.keysOf block)).2
            cachedBlockHashesByBlock := pool.cachedBlockHashesByBlock.erase block } :=
          ⟨rfl, rfl, rfl, rfl, rfl, rfl, fun _ => rfl, fun _ => rfl⟩
        unlisted.trans (.setBlock rfl rfl)
      under_eq := fun key => by
        refine (rest key).trans ?_
        split
        next => rfl
        next absent => exact (outside key absent).symm
      keysOf_self := by simp [keysOf, setBlock, KvCacheBlock.resetHash, Dict.get?_erase]
      keysOf_other := fun other different => by simp [keysOf, setBlock, Dict.get?_erase, different]
      blocks_other := fun other different => by simp [setBlock, different]
      blockHash_self := by simp [setBlock, KvCacheBlock.resetHash]
      numTokens_self := by simp [setBlock, KvCacheBlock.resetHash] }

structure KeyAdded (pool : BlockPool η) (key : η × Nat) (block : BlockRef) (pool' : BlockPool η) : Prop where
  sameCounts : SameCounts pool pool'
  indexed : Indexed pool'
  under_eq : ∀ other, pool'.under other =
    if other = key ∧ block ∉ pool.under key then pool.under key ++ [block] else pool.under other
  keysOf_eq : ∀ other, pool'.keysOf other =
    if other = block ∧ key ∉ pool.keysOf block then pool.keysOf block ++ [key] else pool.keysOf other
  blocks_other : ∀ other ≠ block, pool'.blocks other = pool.blocks other
  events : pool'.kvEventQueue = pool.kvEventQueue

theorem keyAdded_of_mem (indexed : Indexed pool) {key : η × Nat} {block : BlockRef}
    (present : key ∈ pool.keysOf block) : KeyAdded pool key block pool where
  sameCounts := .refl pool
  indexed := indexed
  under_eq other := by simp [(indexed.under_iff key block).mpr present]
  keysOf_eq other := by simp [present]
  blocks_other _ _ := rfl
  events := rfl

/-- Both directions take up a key that the block does not have yet. -/
theorem keyAdded_of_fresh (indexed : Indexed pool) {key : η × Nat} {block : BlockRef} {pool' : BlockPool η}
    (absent : key ∉ pool.keysOf block) (sameCounts : SameCounts pool pool')
    (keys : ∀ other, pool'.keysOf other = if other = block then pool.keysOf block ++ [key] else pool.keysOf other)
    (under : pool'.cachedBlockHashToBlock = pool.cachedBlockHashToBlock.insert key block)
    (hash : ∀ other, (pool'.blocks other).blockHash = none → other ≠ block ∧ (pool.blocks other).blockHash = none)
    (numTokens : ∀ other, (pool'.blocks other).blockHash = none ↔ (pool'.blocks other).blockHashNumTokens = none)
    (blocks : ∀ other ≠ block, pool'.blocks other = pool.blocks other)
    (events : pool'.kvEventQueue = pool.kvEventQueue) : KeyAdded pool key block pool' := by
  have missing : block ∉ pool.under key := fun member => absent ((indexed.under_iff key block).mp member)
  have under_eq : ∀ other, pool'.under other =
      if other = key ∧ block ∉ pool.under key then pool.under key ++ [block] else pool.under other := by
    intro other
    rw [BlockPool.under, under, entries_insert, if_neg missing]
    by_cases same : other = key <;> simp [same, missing]
  refine ⟨sameCounts, ⟨fun other b => ?_, fun other => ?_, fun b => ?_, fun b none_there => ?_, numTokens⟩,
    under_eq, fun other => ?_, blocks, events⟩
  · rw [under_eq, keys]
    by_cases at_key : other = key <;> by_cases at_block : b = block <;>
      simp [at_key, at_block, missing, absent, indexed.under_iff]
  · rw [under_eq]
    split
    next => exact List.nodup_append.mpr ⟨indexed.under_nodup key, List.nodup_singleton _, by grind⟩
    next => exact indexed.under_nodup other
  · rw [keys]
    split
    next => exact List.nodup_append.mpr ⟨indexed.keys_nodup block, List.nodup_singleton _, by grind⟩
    next => exact indexed.keys_nodup b
  · obtain ⟨different, before⟩ := hash b none_there
    rw [keys, if_neg different]
    exact indexed.first_hash b before
  · rw [keys]
    by_cases at_block : other = block <;> simp [at_block, absent]

theorem insertBlockHash_spec (indexed : Indexed pool) (key : η × Nat) (block : BlockRef) (numTokens : Nat) :
    ∃ pool', pool.insertBlockHash key block (some numTokens) = .ok pool' ∧ KeyAdded pool key block pool' := by
  unfold insertBlockHash
  by_cases primary : (pool.blocks block).blockHash = some key
  · exact ⟨pool, by rw [if_pos primary]; rfl, keyAdded_of_mem indexed (by simp [keysOf, primary])⟩
  rw [if_neg primary]
  by_cases contained : pool.cachedBlockHashToBlock.contain key block = true
  · refine ⟨pool, by rw [if_pos contained]; rfl, keyAdded_of_mem indexed ?_⟩
    exact (indexed.under_iff key block).mp ((contain_iff _ _ _).mp contained)
  rw [if_neg contained]
  have absent : key ∉ pool.keysOf block := fun member =>
    contained ((contain_iff _ _ _).mpr ((indexed.under_iff key block).mpr member))
  cases hash : (pool.blocks block).blockHash with
  | none =>
    have tokens : (pool.blocks block).blockHashNumTokens = none := (indexed.numTokens_iff block).mp hash
    have no_keys : pool.keysOf block = [] := indexed.first_hash block hash
    have no_more : (pool.cachedBlockHashesByBlock.get? block).getD [] = [] :=
      (List.append_eq_nil_iff.mp no_keys).2
    let fields := { pool.blocks block with blockHash := some key, blockHashNumTokens := some numTokens }
    refine ⟨{ pool.setBlock block fields with
      cachedBlockHashToBlock := pool.cachedBlockHashToBlock.insert key block }, ?_, ?_⟩
    · simp only [KvCacheBlock.setBlockHash, hash, tokens, Option.isNone_none, and_self, if_true]
      rfl
    · have same_counts : SameCounts pool (pool.setBlock block fields) := .setBlock rfl rfl
      refine keyAdded_of_fresh indexed absent ?_ (fun other => ?_) rfl (fun other none_there => ?_)
        (fun other => ?_) (fun other different => by simp [setBlock, different]) rfl
      · exact ⟨rfl, rfl, rfl, rfl, rfl, rfl, same_counts.refCnt, same_counts.isNull⟩
      · by_cases same : other = block
        · subst same
          simp [keysOf, setBlock, fields, no_more, hash]
        · simp [keysOf, setBlock, same]
      · by_cases same : other = block
        · subst same
          simp [setBlock, fields] at none_there
        · simpa [setBlock, same] using none_there
      · by_cases same : other = block
        · subst same
          simp [setBlock, fields]
        · simpa [setBlock, same] using indexed.numTokens_iff other
  | some first =>
    have not_listed : key ∉ (pool.cachedBlockHashesByBlock.get? block).getD [] := fun member =>
      absent (List.mem_append_right _ member)
    refine ⟨{ pool with
      cachedBlockHashesByBlock := pool.cachedBlockHashesByBlock.set block
        ((pool.cachedBlockHashesByBlock.get? block).getD [] ++ [key])
      cachedBlockHashToBlock := pool.cachedBlockHashToBlock.insert key block }, ?_, ?_⟩
    · simp only [if_neg not_listed]
      rfl
    · refine keyAdded_of_fresh indexed absent ?_ (fun other => ?_) rfl (fun other none_there => ⟨?_, none_there⟩)
        indexed.numTokens_iff (fun _ _ => rfl) rfl
      · exact ⟨rfl, rfl, rfl, rfl, rfl, rfl, fun _ => rfl, fun _ => rfl⟩
      · by_cases same : other = block
        · subst same
          simp [keysOf]
        · simp [keysOf, Dict.get?_set, same]
      · rintro rfl
        simp [hash] at none_there

structure Evicted (pool : BlockPool η) (block : BlockRef) (pool' : BlockPool η) : Prop extends
    Unindexed pool block pool' where
  events : pool'.kvEventQueue = if pool.enableKvCacheEvents then
    pool.kvEventQueue ++ (pool.keysOf block).map fun key => .blockRemoved key.1 key.2 else pool.kvEventQueue

theorem emitBlockRemovedEvents_spec (indexed : Indexed pool) (block : BlockRef) :
    Evicted pool block ((pool.removeCachedBlockHashes block).2.emitBlockRemovedEvents
      (pool.removeCachedBlockHashes block).1) := by
  obtain ⟨removed, unindexed, events⟩ := removeCachedBlockHashes_spec indexed block
  have enabled := unindexed.sameCounts.enableKvCacheEvents
  have counts := unindexed.sameCounts.trans (.emitBlockRemovedEvents _ (pool.removeCachedBlockHashes block).1)
  unfold emitBlockRemovedEvents at counts ⊢
  rw [enabled] at counts ⊢
  by_cases on : pool.enableKvCacheEvents
  · rw [if_pos on] at counts ⊢
    exact ⟨⟨counts, unindexed.under_eq, unindexed.keysOf_self, unindexed.keysOf_other, unindexed.blocks_other,
      unindexed.blockHash_self, unindexed.numTokens_self⟩, by rw [if_pos on, ← removed, ← events]⟩
  · rw [if_neg on]
    exact ⟨unindexed, by rw [if_neg on, events]⟩

theorem maybeEvictCachedBlock_spec (indexed : Indexed pool) (block : BlockRef) :
    Evicted pool block (pool.maybeEvictCachedBlock block) := by
  unfold maybeEvictCachedBlock
  by_cases nothing : (pool.removeCachedBlockHashes block).1 = []
  · obtain ⟨removed, unindexed, events⟩ := removeCachedBlockHashes_spec indexed block
    rw [if_pos nothing]
    refine ⟨unindexed, ?_⟩
    rw [← removed, nothing, List.map_nil, List.append_nil, ite_self, events]
  · rw [if_neg nothing]
    exact emitBlockRemovedEvents_spec indexed block

/-- All that is done to the index, on some of the blocks. -/
inductive IndexSteps (touched : BlockRef → Prop) (pool : BlockPool η) : BlockPool η → Prop where
  | refl : IndexSteps touched pool pool
  | evict {mid pool' : BlockPool η} {block : BlockRef} (steps : IndexSteps touched pool mid)
      (here : touched block) (evicted : Evicted mid block pool') : IndexSteps touched pool pool'
  | add {mid pool' : BlockPool η} {key : η × Nat} {block : BlockRef} (steps : IndexSteps touched pool mid)
      (here : touched block) (added : KeyAdded mid key block pool') : IndexSteps touched pool pool'
  | count {mid pool' : BlockPool η} (steps : IndexSteps touched pool mid) (same : SameIndex mid pool') :
      IndexSteps touched pool pool'

namespace IndexSteps

variable {touched touched' : BlockRef → Prop} {pool' pool'' : BlockPool η}

theorem indexed (steps : IndexSteps touched pool pool') (indexed : Indexed pool) : Indexed pool' := by
  induction steps with
  | refl => exact indexed
  | evict _ _ evicted ih => exact evicted.indexed ih
  | add _ _ added _ => exact added.indexed
  | count _ same ih => exact same.indexed ih

/-- Other blocks keep their keys. -/
theorem frame (steps : IndexSteps touched pool pool') {block : BlockRef} (untouched : ¬ touched block) :
    pool'.keysOf block = pool.keysOf block := by
  induction steps with
  | refl => rfl
  | evict _ here evicted ih =>
    have different : block ≠ _ := fun same => untouched (same ▸ here)
    exact (evicted.keysOf_other block different).trans ih
  | add _ here added ih =>
    have different : block ≠ _ := fun same => untouched (same ▸ here)
    rw [added.keysOf_eq, if_neg (by simp [different]), ih]
  | count _ same ih => exact (same.keysOf block).trans ih

theorem mono (steps : IndexSteps touched pool pool') (wider : ∀ block, touched block → touched' block) :
    IndexSteps touched' pool pool' := by
  induction steps with
  | refl => exact .refl
  | evict _ here evicted ih => exact .evict ih (wider _ here) evicted
  | add _ here added ih => exact .add ih (wider _ here) added
  | count _ same ih => exact .count ih same

theorem trans (first : IndexSteps touched pool pool') (second : IndexSteps touched pool' pool'') :
    IndexSteps touched pool pool'' := by
  induction second with
  | refl => exact first
  | evict _ here evicted ih => exact .evict ih here evicted
  | add _ here added ih => exact .add ih here added
  | count _ same ih => exact .count ih same

end IndexSteps

theorem promote_steps {block : BlockRef} {numHashTokens : Nat} {pool' : BlockPool η} (indexed : Indexed pool)
    (promoted : pool.promote block numHashTokens = .ok pool') :
    IndexSteps (· = block) pool pool' ∧ SameCounts pool pool' := by
  unfold promote at promoted
  split at promoted
  · exact Except.ok.inj promoted ▸ ⟨.refl, .refl pool⟩
  · split at promoted
    · have evicted := emitBlockRemovedEvents_spec indexed block
      exact Except.ok.inj promoted ▸ ⟨.evict .refl rfl evicted, evicted.sameCounts⟩
    · exact nomatch promoted

def realBlocks (pool : BlockPool η) (blocks : List BlockRef) : List BlockRef :=
  blocks.filter fun block => !(pool.blocks block).isNull

omit [DecidableEq η] in
theorem nodup_realBlocks {blocks : List BlockRef} (distinct : blocks.Nodup) : (pool.realBlocks blocks).Nodup :=
  distinct.filter _

omit [DecidableEq η] in
theorem SameCounts.realBlocks_eq {pool pool' : BlockPool η} (same : SameCounts pool pool') (blocks : List BlockRef) :
    pool'.realBlocks blocks = pool.realBlocks blocks :=
  List.filter_congr fun block _ => by rw [same.isNull]

/-- The loop over the new full blocks, one block of it at a time. -/
theorem cacheLoop_steps {newBlockHashes : List η} {numCachedBlocks blockSize groupId : Nat}
    {blockMask : Option (List Bool)} {i : Nat} {blocks : List BlockRef} {newHashes : List η} {pool' : BlockPool η}
    (indexed : Indexed pool)
    (ran : cacheLoop newBlockHashes numCachedBlocks blockSize groupId blockMask i blocks pool = .ok (newHashes, pool')) :
    IndexSteps (fun block => block ∈ blocks ∧ (pool.blocks block).isNull = false) pool pool' ∧
      SameCounts pool pool' ∧
      ((pool.realBlocks blocks).Nodup → ∀ blockHash ∈ newHashes, pool'.under (blockHash, groupId) ≠ []) := by
  induction blocks generalizing i pool newHashes with
  | nil =>
    obtain ⟨rfl, rfl⟩ := Prod.mk.inj (Except.ok.inj ran)
    exact ⟨.refl, .refl pool, fun _ _ member => absurd member List.not_mem_nil⟩
  | cons block blocks ih =>
    rw [cacheLoop] at ran
    split at ran
    · obtain ⟨steps, counts, found⟩ := ih indexed ran
      exact ⟨steps.mono fun _ here => ⟨List.mem_cons_of_mem block here.1, here.2⟩, counts,
        fun distinct => found (distinct.sublist ((List.sublist_cons_self block blocks).filter _))⟩
    next real =>
      split at ran
      · exact nomatch ran
      next blockHash _ =>
        obtain ⟨promoted, promotion, ran⟩ := bind_eq_ok.mp ran
        obtain ⟨inserted, insertion, ran⟩ := bind_eq_ok.mp ran
        obtain ⟨⟨rest, last⟩, looped, ran⟩ := bind_eq_ok.mp ran
        obtain ⟨rfl, rfl⟩ := Prod.mk.inj (Except.ok.inj ran)
        have not_null : (pool.blocks block).isNull = false := by simpa using (not_or.mp real).1
        obtain ⟨cleared, cleared_counts⟩ := promote_steps indexed promotion
        obtain ⟨_, same, added⟩ := insertBlockHash_spec (cleared.indexed indexed) (blockHash, groupId) block
          ((numCachedBlocks + i + 1) * blockSize)
        obtain rfl := Except.ok.inj (insertion.symm.trans same)
        have counts := cleared_counts.trans added.sameCounts
        obtain ⟨steps, later_counts, found⟩ := ih added.indexed looped
        have here : IndexSteps (fun b => b ∈ block :: blocks ∧ (pool.blocks b).isNull = false) pool _ :=
          (cleared.mono fun b same => by subst same; exact ⟨List.mem_cons_self, not_null⟩).add
            ⟨List.mem_cons_self, not_null⟩ added
        refine ⟨here.trans (steps.mono fun b later => ⟨List.mem_cons_of_mem block later.1,
          (counts.isNull b).symm.trans later.2⟩), counts.trans later_counts, fun distinct hash member => ?_⟩
        have split : pool.realBlocks (block :: blocks) = block :: pool.realBlocks blocks :=
          List.filter_cons_of_pos (by rw [not_null]; rfl)
        rw [split, List.nodup_cons] at distinct
        rcases List.mem_cons.mp member with rfl | later
        · -- The rest of the loop is over other blocks, so this one keeps its new key.
          have kept : last.keysOf block = _ := steps.frame fun again =>
            distinct.1 (List.mem_filter.mpr ⟨again.1, by rw [not_null]; rfl⟩)
          have here : (hash, groupId) ∈ last.keysOf block := by
            rw [kept, added.keysOf_eq]
            split
            next => simp
            next present => simpa using present
          exact List.ne_nil_of_mem (((steps.indexed added.indexed).under_iff _ block).mpr here)
        · exact found (counts.realBlocks_eq blocks ▸ distinct.2) hash later

/-- A block without hashes has nothing to be promoted from. -/
theorem promote_unkeyed {block : BlockRef} {numHashTokens : Nat} (unkeyed : pool.keysOf block = []) :
    pool.promote block numHashTokens = .ok pool := by
  have no_hash : (pool.blocks block).blockHash = none := by simpa using (List.append_eq_nil_iff.mp unkeyed).1
  rw [promote, no_hash]

/-- Blocks without hashes are all given theirs, and only these are found from then on. -/
theorem cacheLoop_caches {newBlockHashes : List η} {numCachedBlocks blockSize groupId : Nat}
    {blockMask : Option (List Bool)} {i : Nat} {blocks : List BlockRef} (indexed : Indexed pool)
    (unkeyed : ∀ block ∈ pool.realBlocks blocks, pool.keysOf block = []) (distinct : (pool.realBlocks blocks).Nodup)
    (enough : i + blocks.length ≤ newBlockHashes.length) :
    ∃ newHashes pool',
      cacheLoop newBlockHashes numCachedBlocks blockSize groupId blockMask i blocks pool = .ok (newHashes, pool') ∧
      ∀ key block, block ∈ pool'.under key → block ∈ pool.under key ∨ ∃ j, blocks[j]? = some block ∧
        (pool.blocks block).isNull = false ∧ newBlockHashes[i + j]? = some key.1 ∧ key.2 = groupId := by
  induction blocks generalizing i pool with
  | nil => exact ⟨[], pool, rfl, fun _ _ => .inl⟩
  | cons block blocks ih =>
    rw [List.length_cons] at enough
    have rest : (pool.realBlocks blocks).Sublist (pool.realBlocks (block :: blocks)) :=
      (List.sublist_cons_self block blocks).filter _
    rw [cacheLoop]
    split
    next =>
      obtain ⟨newHashes, pool', ran, found⟩ := ih (i := i + 1) indexed (fun other member => unkeyed other (rest.mem member))
        (distinct.sublist rest) (by omega)
      refine ⟨newHashes, pool', ran, fun key other there => (found key other there).imp_right ?_⟩
      rintro ⟨j, at_j, real, hash, group⟩
      exact ⟨j + 1, at_j, real, by rwa [show i + (j + 1) = i + 1 + j by omega], group⟩
    next real =>
      have not_null : (pool.blocks block).isNull = false := by simpa using (not_or.mp real).1
      have split : pool.realBlocks (block :: blocks) = block :: pool.realBlocks blocks :=
        List.filter_cons_of_pos (by rw [not_null]; rfl)
      rw [split] at unkeyed distinct
      obtain ⟨absent, distinct⟩ := List.nodup_cons.mp distinct
      rw [List.getElem?_eq_getElem (show i < newBlockHashes.length by omega)]
      obtain ⟨inserted, insertion, added⟩ := insertBlockHash_spec indexed (newBlockHashes[i], groupId) block
        ((numCachedBlocks + i + 1) * blockSize)
      have same := added.sameCounts.realBlocks_eq blocks
      have still : ∀ other ∈ inserted.realBlocks blocks, inserted.keysOf other = [] := by
        intro other member
        rw [same] at member
        have different : other ≠ block := fun here => absent (here ▸ member)
        rw [added.keysOf_eq, if_neg (not_and_of_not_left _ different)]
        exact unkeyed other (List.mem_cons_of_mem _ member)
      obtain ⟨newHashes, pool', ran, found⟩ := ih (i := i + 1) added.indexed still (same ▸ distinct) (by omega)
      refine ⟨_ :: newHashes, pool', bind_eq_ok.mpr ⟨pool, promote_unkeyed (unkeyed block List.mem_cons_self),
        bind_eq_ok.mpr ⟨inserted, insertion, bind_eq_ok.mpr ⟨_, ran, rfl⟩⟩⟩, fun key other there => ?_⟩
      rcases found key other there with before | ⟨j, at_j, not_null', hash, group⟩
      · rw [added.under_eq] at before
        split at before
        next here =>
          rcases List.mem_append.mp before with old | new
          · exact .inl (here.1 ▸ old)
          · obtain rfl := List.mem_singleton.mp new
            exact .inr ⟨0, rfl, not_null, by rw [here.1]; exact List.getElem?_eq_getElem _, by rw [here.1]⟩
        next => exact .inl before
      · exact .inr ⟨j + 1, at_j, (added.sameCounts.isNull other).symm.trans not_null',
          by rwa [show i + (j + 1) = i + 1 + j by omega], group⟩

def Announced (pool : BlockPool η) (event : KvCacheEvent η) (pool' : BlockPool η) : Prop :=
  pool.enableKvCacheEvents = true ∧ pool' = { pool with kvEventQueue := pool.kvEventQueue ++ [event] }

/-- The index is changed on blocks of the request only, and what is announced afterwards is in it. -/
theorem cacheFullBlocks_steps {request : Request η} {blocks : List BlockRef}
    {numCachedBlocks numFullBlocks blockSize groupId : Nat} {blockMask : Option (List Bool)} {pool' : BlockPool η}
    (indexed : Indexed pool)
    (ran : pool.cacheFullBlocks request blocks numCachedBlocks numFullBlocks blockSize groupId blockMask = .ok pool') :
    ∃ mid, IndexSteps
        (fun block => block ∈ slice blocks numCachedBlocks numFullBlocks ∧ (pool.blocks block).isNull = false)
        pool mid ∧ SameCounts pool mid ∧
      (pool' = mid ∨ ∃ newHashes parent tokenIds,
        Announced mid (.blockStored newHashes parent tokenIds blockSize groupId) pool' ∧
        ((pool.realBlocks (slice blocks numCachedBlocks numFullBlocks)).Nodup →
          ∀ blockHash ∈ newHashes, mid.under (blockHash, groupId) ≠ [])) := by
  unfold cacheFullBlocks at ran
  split at ran
  · exact ⟨pool, .refl, .refl pool, .inl (Except.ok.inj ran).symm⟩
  · obtain ⟨_, ran⟩ := assertThat_bind.mp ran
    obtain ⟨blockHashes, _, ran⟩ := bind_eq_ok.mp ran
    obtain ⟨⟨newHashes, mid⟩, looped, ran⟩ := bind_eq_ok.mp ran
    obtain ⟨steps, counts, found⟩ := cacheLoop_steps indexed looped
    refine ⟨mid, steps, counts, ?_⟩
    dsimp only at ran
    split at ran
    next enabled =>
      obtain ⟨parent, _, ran⟩ := bind_eq_ok.mp ran
      exact .inr ⟨newHashes, parent, _, ⟨enabled, (Except.ok.inj ran).symm⟩, found⟩
    next => exact .inl (Except.ok.inj ran).symm

/-- What the request's new full blocks can be found by afterwards. -/
theorem cacheFullBlocks_caches {request : Request η} {blocks : List BlockRef}
    {numCachedBlocks numFullBlocks blockSize groupId : Nat} {blockMask : Option (List Bool)} {blockHashes : List η}
    (indexed : Indexed pool) (more : numCachedBlocks < numFullBlocks) (long : numFullBlocks ≤ blocks.length)
    (masked : blockMask.all fun mask => mask.length = numFullBlocks - numCachedBlocks)
    (resolved : resolveBlockHashes request pool.hashBlockSize blockSize = .ok blockHashes)
    (hashed : numFullBlocks ≤ blockHashes.length)
    (unkeyed : ∀ block ∈ pool.realBlocks (slice blocks numCachedBlocks numFullBlocks), pool.keysOf block = [])
    (distinct : (pool.realBlocks (slice blocks numCachedBlocks numFullBlocks)).Nodup) :
    ∃ pool', pool.cacheFullBlocks request blocks numCachedBlocks numFullBlocks blockSize groupId blockMask = .ok pool' ∧
      ∀ key block, block ∈ pool'.under key → block ∈ pool.under key ∨ ∃ j, numCachedBlocks ≤ j ∧ j < numFullBlocks ∧
        blocks[j]? = some block ∧ (pool.blocks block).isNull = false ∧ blockHashes[j]? = some key.1 ∧ key.2 = groupId := by
  have size : (slice blocks numCachedBlocks numFullBlocks).length = numFullBlocks - numCachedBlocks := by
    rw [slice, List.length_drop, List.length_take]
    omega
  have room : 0 + (slice blocks numCachedBlocks numFullBlocks).length ≤ (blockHashes.drop numCachedBlocks).length := by
    rw [size, List.length_drop]
    omega
  obtain ⟨newHashes, mid, looped, found⟩ : ∃ newHashes mid, cacheLoop (blockHashes.drop numCachedBlocks)
      numCachedBlocks blockSize groupId blockMask 0 (slice blocks numCachedBlocks numFullBlocks) pool =
        .ok (newHashes, mid) ∧ _ := cacheLoop_caches indexed unkeyed distinct room
  have caches : ∀ key block, block ∈ mid.under key → block ∈ pool.under key ∨ ∃ j, numCachedBlocks ≤ j ∧
      j < numFullBlocks ∧ blocks[j]? = some block ∧ (pool.blocks block).isNull = false ∧
      blockHashes[j]? = some key.1 ∧ key.2 = groupId := by
    intro key block there
    refine (found key block there).imp_right ?_
    rintro ⟨j, at_j, real, hash, group⟩
    rw [slice, List.getElem?_drop, List.getElem?_take] at at_j
    split at at_j
    next inside =>
      rw [Nat.zero_add, List.getElem?_drop] at hash
      exact ⟨numCachedBlocks + j, Nat.le_add_right .., inside, at_j, real, hash, group⟩
    next => cases at_j
  have parent : ∃ parent, parentBlockHash blockHashes numCachedBlocks = .ok parent := by
    unfold parentBlockHash
    split
    · exact ⟨none, rfl⟩
    · rw [List.getElem?_eq_getElem (show numCachedBlocks - 1 < blockHashes.length by omega)]
      exact ⟨_, rfl⟩
  obtain ⟨parent, parent_eq⟩ := parent
  unfold cacheFullBlocks
  rw [if_neg (Nat.not_le.mpr more)]
  have masked' : blockMask.all fun mask => mask.length = (slice blocks numCachedBlocks numFullBlocks).length := by
    rwa [size]
  by_cases enabled : mid.enableKvCacheEvents = true
  · refine ⟨{ mid with kvEventQueue := mid.kvEventQueue ++ [.blockStored newHashes parent
        (slice request.allTokenIds (numCachedBlocks * blockSize) (numFullBlocks * blockSize)) blockSize groupId] },
      assertThat_bind.mpr ⟨masked', bind_eq_ok.mpr ⟨blockHashes, resolved, bind_eq_ok.mpr ⟨_, looped, ?_⟩⟩⟩, caches⟩
    dsimp only
    rw [if_pos enabled]
    exact bind_eq_ok.mpr ⟨parent, parent_eq, rfl⟩
  · refine ⟨mid, assertThat_bind.mpr ⟨masked', bind_eq_ok.mpr ⟨blockHashes, resolved, bind_eq_ok.mpr ⟨_, looped, ?_⟩⟩⟩,
      caches⟩
    dsimp only
    rw [if_neg enabled]
    rfl

omit [DecidableEq η] in
theorem emitCachedBlockEvents_steps {request : Request η} {numCachedBlocks blockSize groupId : Nat}
    {pool' : BlockPool η} (ran : pool.emitCachedBlockEvents request numCachedBlocks blockSize groupId = .ok pool') :
    pool' = pool ∨ ∃ blockHashes tokenIds, resolveBlockHashes request pool.hashBlockSize blockSize = .ok blockHashes ∧
      Announced pool (.blockStored (blockHashes.take numCachedBlocks) none tokenIds blockSize groupId) pool' := by
  unfold emitCachedBlockEvents at ran
  split at ran
  · exact .inl (Except.ok.inj ran).symm
  next enabled =>
    obtain ⟨blockHashes, resolved, ran⟩ := bind_eq_ok.mp ran
    split at ran
    · exact nomatch ran
    · exact .inr ⟨blockHashes, _, resolved, by simpa using (not_or.mp enabled).1, (Except.ok.inj ran).symm⟩

theorem cachePartialBlock_steps {request : Request η} {block : BlockRef} {numTokens groupId blockSize : Nat}
    {key : Option (η × Nat)} {pool' : BlockPool η} (indexed : Indexed pool)
    (ran : pool.cachePartialBlock request block numTokens groupId blockSize = .ok (key, pool')) :
    ∃ mid, IndexSteps (fun b => b = block ∧ (pool.blocks b).isNull = false) pool mid ∧ SameCounts pool mid ∧
      (pool' = mid ∨ ∃ blockHash parent tokenIds blockSize,
        Announced mid (.blockStored [blockHash] parent tokenIds blockSize groupId) pool' ∧
        mid.under (blockHash, groupId) ≠ []) := by
  unfold cachePartialBlock at ran
  split at ran
  · exact ⟨pool, .refl, .refl pool, .inl (Prod.mk.inj (Except.ok.inj ran)).2.symm⟩
  next real =>
    obtain ⟨_, ran⟩ := assertThat_bind.mp ran
    obtain ⟨_, ran⟩ := assertThat_bind.mp ran
    obtain ⟨_, ran⟩ := assertThat_bind.mp ran
    obtain ⟨_, ran⟩ := assertThat_bind.mp ran
    obtain ⟨_, ran⟩ := assertThat_bind.mp ran
    dsimp only at ran
    split at ran
    · exact nomatch ran
    next blockHash _ =>
      obtain ⟨inserted, insertion, ran⟩ := bind_eq_ok.mp ran
      have not_null : (pool.blocks block).isNull = false := by simpa using real
      have evicted := emitBlockRemovedEvents_spec indexed block
      obtain ⟨cleared, cleared_eq, steps, counts⟩ : ∃ cleared, cleared.insertBlockHash (blockHash, groupId) block
          (some (numTokens / pool.hashBlockSize * pool.hashBlockSize)) = .ok inserted ∧
          IndexSteps (fun b => b = block ∧ (pool.blocks b).isNull = false) pool cleared ∧
          SameCounts pool cleared := by
        split at insertion
        · exact ⟨_, evicted.sameCounts.hashBlockSize ▸ insertion, .evict .refl ⟨rfl, not_null⟩ evicted,
            evicted.sameCounts⟩
        · exact ⟨pool, insertion, .refl, .refl pool⟩
      obtain ⟨_, same, added⟩ := insertBlockHash_spec (steps.indexed indexed) (blockHash, groupId) block
        (numTokens / pool.hashBlockSize * pool.hashBlockSize)
      obtain rfl := Except.ok.inj (cleared_eq.symm.trans same)
      refine ⟨inserted, steps.add ⟨rfl, not_null⟩ added, counts.trans added.sameCounts, ?_⟩
      obtain ⟨_, rfl⟩ := Prod.mk.inj (Except.ok.inj ran)
      split
      next enabled =>
        refine .inr ⟨blockHash, _, _, _, ⟨enabled.1, rfl⟩, ?_⟩
        have present : (blockHash, groupId) ∈ inserted.keysOf block := by
          rw [added.keysOf_eq]
          split
          next => simp
          next present => simpa using present
        exact List.ne_nil_of_mem ((added.indexed.under_iff _ block).mpr present)
      next => exact .inl rfl

theorem evictBlocks_steps {blockIds : List Nat} {pool' : BlockPool η} (indexed : Indexed pool)
    (ran : pool.evictBlocks blockIds = .ok pool') :
    IndexSteps (fun block => ∃ i < pool.numGpuBlocks, block = .pooled i) pool pool' ∧ SameCounts pool pool' ∧
      ∀ block, pool'.keysOf block ⊆ pool.keysOf block := by
  induction blockIds generalizing pool with
  | nil => exact Except.ok.inj ran ▸ ⟨.refl, .refl pool, fun _ => List.Subset.refl _⟩
  | cons blockId blockIds ih =>
    rw [evictBlocks] at ran
    split at ran
    next inside =>
      have evicted := maybeEvictCachedBlock_spec indexed (.pooled blockId)
      obtain ⟨steps, counts, keys⟩ := ih (evicted.indexed indexed) ran
      have here : IndexSteps (fun block => ∃ i < pool.numGpuBlocks, block = .pooled i) pool _ :=
        .evict .refl ⟨blockId, inside, rfl⟩ evicted
      refine ⟨here.trans (evicted.sameCounts.numGpuBlocks ▸ steps), evicted.sameCounts.trans counts,
        fun block => List.Subset.trans (keys block) ?_⟩
      by_cases same : block = .pooled blockId
      · rw [same, evicted.keysOf_self]
        exact List.nil_subset _
      · rw [evicted.keysOf_other block same]
        exact List.Subset.refl _
    next => exact nomatch ran

end BlockPool

end DreamAifd.KvCache
