import DreamAifd.PoolCounts

/-! Whole runs of the block pool, the ledger of its callers kept beside it. -/
namespace DreamAifd.KvCache.BlockPool

open FreeBlockQueue BlockHashToBlockMap

variable {η : Type} [DecidableEq η]

/-- A pool, how often its callers hold each block, and the events taken so far. Callers touch blocks of
the pool, give back what they hold and, with caching on, cache what they hold. `evicts` tells whether `evict_blocks` is
used, `truthful` whether what is cached at once are different blocks and what is announced as cached can be found. -/
inductive Reachable (evicts truthful : Bool) : BlockPool η → (BlockRef → Nat) → List (KvCacheEvent η) → Prop where
  | new {numGpuBlocks hashBlockSize : Nat} {enableCaching enableKvCacheEvents : Bool} {pool : BlockPool η}
      (created : BlockPool.new numGpuBlocks enableCaching hashBlockSize enableKvCacheEvents = .ok pool) :
      Reachable evicts truthful pool (fun _ => 0) []
  | getNewBlocks {pool pool' : BlockPool η} {held : BlockRef → Nat} {taken : List (KvCacheEvent η)} {n : Nat}
      {ret : List BlockRef} (before : Reachable evicts truthful pool held taken)
      (ran : pool.getNewBlocks n = .ok (ret, pool')) :
      Reachable evicts truthful pool' (fun block => held block + ret.count block) taken
  | touch {pool pool' : BlockPool η} {held : BlockRef → Nat} {taken : List (KvCacheEvent η)}
      {blocks : List BlockRef} (before : Reachable evicts truthful pool held taken)
      (members : ∀ block ∈ blocks, block ∈ allBlocks pool.numGpuBlocks) (ran : pool.touch blocks = .ok pool') :
      Reachable evicts truthful pool' (fun block => held block + blocks.count block) taken
  | freeBlocks {pool pool' : BlockPool η} {held : BlockRef → Nat} {taken : List (KvCacheEvent η)}
      {ordered : List BlockRef} (before : Reachable evicts truthful pool held taken)
      (owned : ∀ block ≠ pool.nullBlock, ordered.count block ≤ held block)
      (ran : pool.freeBlocks ordered = .ok pool') :
      Reachable evicts truthful pool' (fun block => held block - ordered.count block) taken
  | cacheFullBlocks {pool pool' : BlockPool η} {held : BlockRef → Nat} {taken : List (KvCacheEvent η)}
      {request : Request η} {blocks : List BlockRef} {numCached numFull blockSize groupId : Nat}
      {blockMask : Option (List Bool)} (before : Reachable evicts truthful pool held taken)
      (caching : pool.enableCaching = true)
      (distinct : truthful = true → (pool.realBlocks (slice blocks numCached numFull)).Nodup)
      (owned : ∀ block ∈ slice blocks numCached numFull, block ≠ pool.nullBlock → held block ≠ 0)
      (ran : pool.cacheFullBlocks request blocks numCached numFull blockSize groupId blockMask = .ok pool') :
      Reachable evicts truthful pool' held taken
  | emitCachedBlockEvents {pool pool' : BlockPool η} {held : BlockRef → Nat} {taken : List (KvCacheEvent η)}
      {request : Request η} {numCached blockSize groupId : Nat} (before : Reachable evicts truthful pool held taken)
      (found : truthful = true → ∀ blockHashes, resolveBlockHashes request pool.hashBlockSize blockSize = .ok blockHashes →
        ∀ blockHash ∈ blockHashes.take numCached, pool.under (blockHash, groupId) ≠ [])
      (ran : pool.emitCachedBlockEvents request numCached blockSize groupId = .ok pool') :
      Reachable evicts truthful pool' held taken
  | cachePartialBlock {pool pool' : BlockPool η} {held : BlockRef → Nat} {taken : List (KvCacheEvent η)}
      {request : Request η} {block : BlockRef} {numTokens groupId blockSize : Nat} {key : Option (η × Nat)}
      (before : Reachable evicts truthful pool held taken) (caching : pool.enableCaching = true)
      (owned : block ≠ pool.nullBlock → held block ≠ 0)
      (ran : pool.cachePartialBlock request block numTokens groupId blockSize = .ok (key, pool')) :
      Reachable evicts truthful pool' held taken
  | evictBlocks {pool pool' : BlockPool η} {held : BlockRef → Nat} {taken : List (KvCacheEvent η)}
      {blockIds : List Nat} (before : Reachable evicts truthful pool held taken) (allowed : evicts = true)
      (ran : pool.evictBlocks blockIds = .ok pool') : Reachable evicts truthful pool' held taken
  | resetPrefixCache {pool : BlockPool η} {held : BlockRef → Nat} {taken : List (KvCacheEvent η)}
      (before : Reachable evicts truthful pool held taken) : Reachable evicts truthful pool.resetPrefixCache.2 held taken
  | takeEvents {pool : BlockPool η} {held : BlockRef → Nat} {taken : List (KvCacheEvent η)}
      (before : Reachable evicts truthful pool held taken) :
      Reachable evicts truthful pool.takeEvents.2 held (taken ++ pool.takeEvents.1)

/-- Of the free blocks those without a hash come first. -/
def Sorted (pool : BlockPool η) (free : List BlockRef) : Prop :=
  ∃ unhashed hashed, free = unhashed ++ hashed ∧ (∀ block ∈ unhashed, pool.keysOf block = []) ∧
    ∀ block ∈ hashed, pool.keysOf block ≠ []

/-- What holds in every run. Only blocks of the pool are in the index, never the null block, and none
without prefix caching. -/
structure Invariant (evicts : Bool) (pool : BlockPool η) (held : BlockRef → Nat) (free : List BlockRef) : Prop where
  counted : Counted pool held free
  indexed : Indexed pool
  uncached : pool.enableCaching = false → ∀ block, pool.keysOf block = []
  keyed : ∀ block, pool.keysOf block ≠ [] → block ∈ allBlocks pool.numGpuBlocks ∧ block ≠ pool.nullBlock
  sorted : evicts = false → Sorted pool free

variable {evicts truthful : Bool} {pool pool' : BlockPool η} {held : BlockRef → Nat} {free : List BlockRef}

theorem keysOf_eq_nil (indexed : Indexed pool) {block : BlockRef} :
    pool.keysOf block = [] ↔ (pool.blocks block).blockHash = none := by
  refine ⟨fun none_there => ?_, indexed.first_hash block⟩
  simpa using (List.append_eq_nil_iff.mp none_there).1

omit [DecidableEq η] in
theorem Sorted.congr (sorted : Sorted pool free) (same : ∀ block ∈ free, pool'.keysOf block = pool.keysOf block) :
    Sorted pool' free := by
  obtain ⟨unhashed, hashed, rfl, first, last⟩ := sorted
  exact ⟨unhashed, hashed, rfl, fun block member => (same block (List.mem_append_left _ member)).trans (first block member),
    fun block member => same block (List.mem_append_right _ member) ▸ last block member⟩

theorem getNewBlocks_short {n : Nat} (counted : Counted pool held free) (short : free.length < n) :
    pool.getNewBlocks n = .error .valueError := by
  have few : pool.getNumFreeBlocks < n := by rw [counted.numFree]; omega
  rw [getNewBlocks, if_pos few]
  rfl

theorem nodup_allBlocks (n : Nat) : (allBlocks n).Nodup :=
  List.Nodup.map (fun _ _ same => BlockRef.pooled.inj same) List.nodup_range

theorem allBlocks_succ (n : Nat) : allBlocks (n + 1) = .pooled 0 :: (allBlocks (n + 1)).tail := by
  simp [allBlocks, List.range_succ_eq_map]

theorem mem_tail_allBlocks (n : Nat) (block : BlockRef) :
    block ∈ (allBlocks (n + 1)).tail ↔ block ∈ allBlocks (n + 1) ∧ block ≠ .pooled 0 := by
  have apart := (List.nodup_cons.mp (allBlocks_succ n ▸ nodup_allBlocks (n + 1))).1
  rw [allBlocks_succ, List.tail_cons, List.mem_cons]
  constructor
  · exact fun member => ⟨.inr member, fun same => apart (same ▸ member)⟩
  · exact fun ⟨member, different⟩ => member.resolve_left different

/-- An index without entries, and blocks without hashes. -/
theorem indexed_of_empty (pool : BlockPool η) (no_entries : pool.cachedBlockHashToBlock = Dict.empty)
    (no_keys : pool.cachedBlockHashesByBlock = Dict.empty)
    (no_hash : ∀ block, (pool.blocks block).blockHash = none ∧ (pool.blocks block).blockHashNumTokens = none) :
    Indexed pool ∧ ∀ block, pool.keysOf block = [] := by
  have keys : ∀ block, pool.keysOf block = [] := fun block => by simp [keysOf, (no_hash block).1, no_keys]
  have nothing : ∀ key, pool.under key = [] := fun key => by simp [BlockPool.under, entries, no_entries]
  exact ⟨⟨fun key block => by simp [nothing, keys], fun key => by simp [nothing], fun block => by simp [keys],
    fun block _ => keys block, fun block => by simp [no_hash block]⟩, keys⟩

theorem popleft_allBlocks (n : Nat) : ∃ queue,
    (FreeBlockQueue.new (allBlocks (n + 1))).popleft = .ok (.pooled 0, queue) ∧
      Represents queue (allBlocks (n + 1)).tail := by
  have distinct : (BlockRef.fakeHead :: (allBlocks (n + 1) ++ [.fakeTail])).Nodup := by
    rw [List.nodup_cons, List.nodup_append]
    exact ⟨by simp [allBlocks], nodup_allBlocks _, List.nodup_singleton _, by simp [allBlocks]⟩
  have listed := represents_new distinct
  rw [allBlocks_succ] at listed
  obtain ⟨queue, popped, represents⟩ := popleft_spec listed
  exact ⟨queue, by rwa [allBlocks_succ], represents⟩

omit [DecidableEq η] in
theorem exists_new (numGpuBlocks hashBlockSize : Nat) (enableCaching enableKvCacheEvents : Bool)
    (positive : 0 < numGpuBlocks) :
    ∃ pool : BlockPool η, BlockPool.new numGpuBlocks enableCaching hashBlockSize enableKvCacheEvents = .ok pool := by
  obtain ⟨n, rfl⟩ : ∃ n, numGpuBlocks = n + 1 := ⟨numGpuBlocks - 1, by omega⟩
  obtain ⟨queue, popped, _⟩ := popleft_allBlocks n
  exact ⟨_, assertThat_bind.mpr ⟨positive, bind_eq_ok.mpr ⟨_, popped, rfl⟩⟩⟩

theorem invariant_new {numGpuBlocks hashBlockSize : Nat} {enableCaching enableKvCacheEvents : Bool}
    (created : BlockPool.new numGpuBlocks enableCaching hashBlockSize enableKvCacheEvents = .ok pool) :
    Invariant evicts pool (fun _ => 0) (allBlocks numGpuBlocks).tail := by
  obtain ⟨positive, created⟩ := assertThat_bind.mp created
  obtain ⟨⟨nullBlock, queue⟩, popped, created⟩ := bind_eq_ok.mp created
  obtain ⟨m, rfl⟩ : ∃ m, numGpuBlocks = m + 1 := ⟨numGpuBlocks - 1, by omega⟩
  obtain ⟨_, same, represents⟩ := popleft_allBlocks m
  rw [popped] at same
  obtain ⟨rfl, rfl⟩ := Prod.mk.inj (Except.ok.inj same)
  have fields : ∀ block, Function.update (fun _ => (KvCacheBlock.new : KvCacheBlock η)) (BlockRef.pooled 0)
      { KvCacheBlock.new with isNull := true } block =
        { KvCacheBlock.new with isNull := decide (block = BlockRef.pooled 0) } := by
    intro block
    by_cases here : block = .pooled 0 <;> simp [here, KvCacheBlock.new]
  obtain ⟨blocks_eq, queue_eq, entries_eq, keys_eq, null_eq, size_eq⟩ :
      (∀ block, pool.blocks block = { KvCacheBlock.new with isNull := decide (block = BlockRef.pooled 0) }) ∧
        pool.freeBlockQueue = queue ∧ pool.cachedBlockHashToBlock = Dict.empty ∧
        pool.cachedBlockHashesByBlock = Dict.empty ∧ pool.nullBlock = .pooled 0 ∧ pool.numGpuBlocks = m + 1 := by
    rw [← Except.ok.inj created]
    exact ⟨fields, rfl, rfl, rfl, rfl, rfl⟩
  obtain ⟨indexed, keys⟩ := indexed_of_empty pool entries_eq keys_eq fun block => by simp [blocks_eq, KvCacheBlock.new]
  refine ⟨⟨queue_eq ▸ represents, fun block => ?_, fun block _ => ?_, fun block => ?_, ?_, fun _ nonzero =>
    absurd rfl nonzero⟩, indexed, fun _ => keys, fun block keyed => absurd (keys block) keyed, fun _ => ?_⟩
  · rw [mem_tail_allBlocks, size_eq, null_eq]
    simp
  · simp [blocks_eq, KvCacheBlock.new]
  · simp [blocks_eq, null_eq]
  · rw [null_eq, size_eq, allBlocks_succ]
    exact List.mem_cons_self
  · exact ⟨(allBlocks (m + 1)).tail, [], (List.append_nil _).symm, fun block _ => keys block,
      fun _ member => absurd member List.not_mem_nil⟩

/-- Blocks are taken from the front of the free list. -/
theorem invariant_getNewBlocks {n : Nat} {ret : List BlockRef} (invariant : Invariant evicts pool held free)
    (ran : pool.getNewBlocks n = .ok (ret, pool')) :
    ret = free.take n ∧ n ≤ free.length ∧
      Invariant evicts pool' (fun block => held block + ret.count block) (free.drop n) := by
  have enough : n ≤ free.length := by
    by_contra short
    rw [getNewBlocks_short invariant.counted (by omega)] at ran
    exact nomatch ran
  obtain ⟨p, same, counted, steps, caching, _, _, size, null, keys⟩ :=
    getNewBlocks_spec invariant.counted invariant.indexed enough
  obtain ⟨rfl, rfl⟩ := Prod.mk.inj (Except.ok.inj (same.symm.trans ran))
  refine ⟨rfl, enough, counted, steps.indexed invariant.indexed, fun off block => ?_, fun block keyed => ?_,
    fun never => ?_⟩
  · rw [keys, invariant.uncached (caching.symm.trans off), ite_self]
  · rw [size, null]
    refine invariant.keyed block fun none_before => keyed ?_
    rw [keys, none_before, ite_self]
  · obtain ⟨unhashed, hashed, rfl, first, last⟩ := invariant.sorted never
    refine ⟨unhashed.drop n, hashed.drop (n - unhashed.length), List.drop_append, fun block member => ?_,
      fun block member => ?_⟩
    · rw [keys, first block (List.mem_of_mem_drop member), ite_self]
    · have apart := List.disjoint_take_drop invariant.counted.represents.nodup (le_refl n)
      have later : block ∈ (unhashed ++ hashed).drop n := List.drop_append ▸ List.mem_append_right _ member
      rw [keys, if_neg fun taken => apart taken.2 later]
      exact last block (List.mem_of_mem_drop member)

theorem invariant_touch {blocks : List BlockRef} (invariant : Invariant evicts pool held free)
    (members : ∀ block ∈ blocks, block ∈ allBlocks pool.numGpuBlocks) (ran : pool.touch blocks = .ok pool') :
    Invariant evicts pool' (fun block => held block + blocks.count block) (free.filter (· ∉ blocks)) := by
  obtain ⟨p, same, index, counted⟩ := touch_spec invariant.counted members
  obtain rfl := Except.ok.inj (same.symm.trans ran)
  refine ⟨counted, index.indexed invariant.indexed, fun off block => ?_, fun block keyed => ?_, fun never => ?_⟩
  · rw [index.keysOf]
    exact invariant.uncached (index.enableCaching.symm.trans off) block
  · rw [index.numGpuBlocks, index.nullBlock]
    exact invariant.keyed block (index.keysOf block ▸ keyed)
  · obtain ⟨unhashed, hashed, rfl, first, last⟩ := invariant.sorted never
    refine ⟨_, _, List.filter_append .., fun block member => ?_, fun block member => ?_⟩
    · exact (index.keysOf block).trans (first block (List.mem_of_mem_filter member))
    · exact index.keysOf block ▸ last block (List.mem_of_mem_filter member)

theorem invariant_freeBlocks {ordered : List BlockRef} (invariant : Invariant evicts pool held free)
    (owned : ∀ block ≠ pool.nullBlock, ordered.count block ≤ held block) (ran : pool.freeBlocks ordered = .ok pool') :
    ∃ withHash withoutHash, Invariant evicts pool' (fun block => held block - ordered.count block)
      (withoutHash ++ free ++ withHash) := by
  obtain ⟨p, withHash, withoutHash, same, index, counted, _, _, hash, no_hash⟩ :=
    freeBlocks_spec invariant.counted owned
  obtain rfl := Except.ok.inj (same.symm.trans ran)
  refine ⟨withHash, withoutHash, counted, index.indexed invariant.indexed, fun off block => ?_,
    fun block keyed => ?_, fun never => ?_⟩
  · rw [index.keysOf]
    exact invariant.uncached (index.enableCaching.symm.trans off) block
  · rw [index.numGpuBlocks, index.nullBlock]
    exact invariant.keyed block (index.keysOf block ▸ keyed)
  · obtain ⟨unhashed, hashed, rfl, first, last⟩ := invariant.sorted never
    refine ⟨withoutHash ++ unhashed, hashed ++ withHash, by simp, fun block member => ?_, fun block member => ?_⟩
    · rw [index.keysOf]
      rcases List.mem_append.mp member with new | old
      · exact (keysOf_eq_nil invariant.indexed).mpr (no_hash block new)
      · exact first block old
    · rw [index.keysOf]
      rcases List.mem_append.mp member with old | new
      · exact last block old
      · exact fun none_there => hash block new ((keysOf_eq_nil invariant.indexed).mp none_there)

/-- Changes to the index of blocks that are held, or of none. -/
theorem invariant_steps {touched : BlockRef → Prop} (invariant : Invariant evicts pool held free)
    (steps : IndexSteps touched pool pool') (counts : SameCounts pool pool')
    (allowed : pool.enableCaching = true ∨ ∀ block, pool'.keysOf block = [])
    (members : ∀ block, touched block → block ∈ allBlocks pool.numGpuBlocks ∧ (block ≠ pool.nullBlock ∨ pool'.keysOf block = []))
    (unfree : evicts = false → ∀ block, touched block → block ∉ free) : Invariant evicts pool' held free where
  counted := invariant.counted.of_sameCounts counts
  indexed := steps.indexed invariant.indexed
  uncached off block := allowed.resolve_left (fun on => by simp [counts.enableCaching.symm.trans off] at on) block
  keyed block keyed := by
    rw [counts.numGpuBlocks, counts.nullBlock]
    by_cases here : touched block
    · exact ⟨(members block here).1, (members block here).2.resolve_right keyed⟩
    · exact invariant.keyed block (steps.frame here ▸ keyed)
  sorted never := (invariant.sorted never).congr fun block member =>
    steps.frame fun here => unfree never block here member

/-- Events alone do not matter here. -/
theorem invariant_events {events : List (KvCacheEvent η)} (invariant : Invariant evicts pool held free) :
    Invariant evicts { pool with kvEventQueue := events } held free where
  counted := invariant.counted.of_sameCounts ⟨rfl, rfl, rfl, rfl, rfl, rfl, fun _ => rfl, fun _ => rfl⟩
  indexed := ⟨invariant.indexed.under_iff, invariant.indexed.under_nodup, invariant.indexed.keys_nodup,
    invariant.indexed.first_hash, invariant.indexed.numTokens_iff⟩
  uncached := invariant.uncached
  keyed := invariant.keyed
  sorted := invariant.sorted

theorem invariant_announced {event : KvCacheEvent η} (invariant : Invariant evicts pool held free)
    (announced : Announced pool event pool') : Invariant evicts pool' held free :=
  announced.2 ▸ invariant_events invariant

theorem invariant_resetPrefixCache (invariant : Invariant evicts pool held free) :
    Invariant evicts pool.resetPrefixCache.2 held free := by
  unfold resetPrefixCache
  dsimp only
  split
  · exact invariant
  · have no_hash : ∀ block, (if block ∈ allBlocks pool.numGpuBlocks then (pool.blocks block).resetHash
        else pool.blocks block).blockHash = none ∧ (if block ∈ allBlocks pool.numGpuBlocks then
        (pool.blocks block).resetHash else pool.blocks block).blockHashNumTokens = none := by
      intro block
      split
      · exact ⟨rfl, rfl⟩
      next outside =>
        have none_there : (pool.blocks block).blockHash = none :=
          (keysOf_eq_nil invariant.indexed).mp (by_contra fun keyed => outside (invariant.keyed block keyed).1)
        exact ⟨none_there, (invariant.indexed.numTokens_iff block).mp none_there⟩
    obtain ⟨indexed, keys⟩ := indexed_of_empty { pool with
      cachedBlockHashToBlock := Dict.empty
      cachedBlockHashesByBlock := Dict.empty
      blocks := fun block =>
        if block ∈ allBlocks pool.numGpuBlocks then (pool.blocks block).resetHash else pool.blocks block
      kvEventQueue := if pool.enableKvCacheEvents then pool.kvEventQueue ++ [.allBlocksCleared] else pool.kvEventQueue }
      rfl rfl no_hash
    refine ⟨invariant.counted.of_sameCounts ⟨rfl, rfl, rfl, rfl, rfl, rfl, fun block => ?_, fun block => ?_⟩, indexed,
      fun _ => keys, fun block keyed => absurd (keys block) keyed, fun _ => ⟨free, [], (List.append_nil _).symm,
      fun block _ => keys block, fun _ member => absurd member List.not_mem_nil⟩⟩
    · dsimp only
      split <;> rfl
    · dsimp only
      split <;> rfl

/-- The index is changed on blocks that somebody holds. -/
theorem invariant_held {touched : BlockRef → Prop} (invariant : Invariant evicts pool held free)
    (caching : pool.enableCaching = true) (owned : ∀ block, touched block → block ≠ pool.nullBlock → held block ≠ 0)
    (steps : IndexSteps (fun block => touched block ∧ (pool.blocks block).isNull = false) pool pool')
    (counts : SameCounts pool pool') : Invariant evicts pool' held free := by
  have different : ∀ block, (pool.blocks block).isNull = false → block ≠ pool.nullBlock := by
    rintro block real rfl
    rw [(invariant.counted.isNull_iff pool.nullBlock).mpr rfl] at real
    exact Bool.noConfusion real
  refine invariant_steps invariant steps counts (.inl caching) (fun block here => ?_) fun _ block here => ?_
  · have real := different block here.2
    exact ⟨invariant.counted.held_mem block (owned block here.1 real), .inl real⟩
  · exact fun free_one => owned block here.1 (different block here.2)
      ((invariant.counted.free_iff block).mp free_one).2.2

theorem invariant_evictBlocks {blockIds : List Nat} (invariant : Invariant evicts pool held free)
    (allowed : evicts = true) (ran : pool.evictBlocks blockIds = .ok pool') : Invariant evicts pool' held free := by
  obtain ⟨steps, counts, keys⟩ := evictBlocks_steps invariant.indexed ran
  refine invariant_steps invariant steps counts ?_ (fun block here => ⟨mem_allBlocks.mpr here, ?_⟩)
    fun never => by simp [allowed] at never
  · rw [or_iff_not_imp_left, Bool.not_eq_true]
    exact fun off block => List.eq_nil_of_subset_nil (invariant.uncached off block ▸ keys block)
  · rw [or_iff_not_imp_left, not_not]
    rintro rfl
    have unkeyed : pool.keysOf pool.nullBlock = [] := by_contra fun keyed => (invariant.keyed _ keyed).2 rfl
    exact List.eq_nil_of_subset_nil (unkeyed ▸ keys pool.nullBlock)

theorem reachable_invariant {taken : List (KvCacheEvent η)} (reachable : Reachable evicts truthful pool held taken) :
    ∃ free, Invariant evicts pool held free := by
  induction reachable with
  | new created => exact ⟨_, invariant_new created⟩
  | getNewBlocks _ ran ih =>
    obtain ⟨free, invariant⟩ := ih
    exact ⟨_, (invariant_getNewBlocks invariant ran).2.2⟩
  | touch _ members ran ih =>
    obtain ⟨free, invariant⟩ := ih
    exact ⟨_, invariant_touch invariant members ran⟩
  | freeBlocks _ owned ran ih =>
    obtain ⟨free, invariant⟩ := ih
    obtain ⟨withHash, withoutHash, invariant'⟩ := invariant_freeBlocks invariant owned ran
    exact ⟨_, invariant'⟩
  | cacheFullBlocks _ caching _ owned ran ih =>
    obtain ⟨free, invariant⟩ := ih
    obtain ⟨mid, steps, counts, rest⟩ := cacheFullBlocks_steps invariant.indexed ran
    have cached := invariant_held invariant caching owned steps counts
    rcases rest with rfl | ⟨_, _, _, announced, _⟩
    · exact ⟨free, cached⟩
    · exact ⟨free, invariant_announced cached announced⟩
  | emitCachedBlockEvents _ _ ran ih =>
    obtain ⟨free, invariant⟩ := ih
    rcases emitCachedBlockEvents_steps ran with rfl | ⟨_, _, _, announced⟩
    · exact ⟨free, invariant⟩
    · exact ⟨free, invariant_announced invariant announced⟩
  | cachePartialBlock _ caching owned ran ih =>
    obtain ⟨free, invariant⟩ := ih
    obtain ⟨mid, steps, counts, rest⟩ := cachePartialBlock_steps invariant.indexed ran
    have cached := invariant_held invariant caching (fun b (same : b = _) => by subst same; exact owned) steps counts
    rcases rest with rfl | ⟨_, _, _, _, announced, _⟩
    · exact ⟨free, cached⟩
    · exact ⟨free, invariant_announced cached announced⟩
  | evictBlocks _ allowed ran ih =>
    obtain ⟨free, invariant⟩ := ih
    exact ⟨free, invariant_evictBlocks invariant allowed ran⟩
  | resetPrefixCache _ ih =>
    obtain ⟨free, invariant⟩ := ih
    exact ⟨free, invariant_resetPrefixCache invariant⟩
  | takeEvents _ ih =>
    obtain ⟨free, invariant⟩ := ih
    refine ⟨free, ?_⟩
    unfold takeEvents
    split
    · exact invariant_events invariant
    · exact invariant

/-- What the callers of the pool can rely on. `free` are the blocks of which they hold none. -/
structure KeepsLedger (pool : BlockPool η) (held : BlockRef → Nat) (free : List BlockRef) : Prop where
  nodup : free.Nodup
  mem_free : ∀ block, block ∈ free ↔
    block ∈ allBlocks pool.numGpuBlocks ∧ block ≠ pool.nullBlock ∧ held block = 0
  listed : ∀ fuel, free.length < fuel → pool.freeBlockQueue.getAllFreeBlocks fuel = .ok (some free)
  numFree : pool.getNumFreeBlocks = free.length
  refCnt : ∀ block ≠ pool.nullBlock, (pool.blocks block).refCnt = held block
  gives : ∀ n ≤ free.length, ∃ pool', pool.getNewBlocks n = .ok (free.take n, pool') ∧
    ∀ block ∈ free.take n, ∀ key, block ∉ pool'.under key
  refuses : ∀ n, free.length < n → pool.getNewBlocks n = .error .valueError
  touches : ∀ blocks, (∀ block ∈ blocks, block ∈ allBlocks pool.numGpuBlocks) →
    ∃ pool', pool.touch blocks = .ok pool'
  takesBack : ∀ ordered : List BlockRef, (∀ block ≠ pool.nullBlock, ordered.count block ≤ held block) →
    ∃ pool', pool.freeBlocks ordered = .ok pool'
  found_iff : ∀ key block, block ∈ pool.under key ↔ key ∈ pool.keysOf block

/-- In no run does the pool lose a block, give out one that is held, or fail on what its callers may do. -/
theorem reachable_keepsLedger {taken : List (KvCacheEvent η)} (reachable : Reachable evicts truthful pool held taken) :
    ∃ free, KeepsLedger pool held free := by
  obtain ⟨free, invariant⟩ := reachable_invariant reachable
  have counted := invariant.counted
  refine ⟨free, counted.represents.nodup, counted.free_iff, fun _ => getAllFreeBlocks_spec counted.represents,
    counted.numFree, counted.refCnt_eq, fun n enough => ?_, fun n => getNewBlocks_short counted,
    fun blocks members => ?_, fun ordered owned => ?_, invariant.indexed.under_iff⟩
  · obtain ⟨pool', ran, _, steps, caching, _, _, _, _, keys⟩ := getNewBlocks_spec counted invariant.indexed enough
    refine ⟨pool', ran, fun block member key found => ?_⟩
    have keyed := ((steps.indexed invariant.indexed).under_iff key block).mp found
    rw [keys] at keyed
    split at keyed
    · exact absurd keyed List.not_mem_nil
    next off =>
      have none_on : pool.enableCaching = false := by simpa [member] using off
      rw [invariant.uncached none_on] at keyed
      exact absurd keyed List.not_mem_nil
  · obtain ⟨pool', ran, _⟩ := touch_spec counted members
    exact ⟨pool', ran⟩
  · obtain ⟨pool', _, _, ran, _⟩ := freeBlocks_spec counted owned
    exact ⟨pool', ran⟩

theorem reachable_keepsLedger_three : ∃ pool pool' : BlockPool Nat, ∃ ret free,
    BlockPool.new 3 true 16 false = .ok pool ∧ pool.getNewBlocks 2 = .ok (ret, pool') ∧
      KeepsLedger pool' (fun block => 0 + ret.count block) free := by
  obtain ⟨pool, created⟩ : ∃ pool : BlockPool Nat, BlockPool.new 3 true 16 false = .ok pool :=
    exists_new 3 16 true false (by decide)
  have start : Invariant true pool (fun _ => 0) _ := invariant_new created
  obtain ⟨pool', ran, _⟩ := getNewBlocks_spec start.counted start.indexed (show 2 ≤ _ by decide)
  obtain ⟨free, ledger⟩ := reachable_keepsLedger (Reachable.getNewBlocks (.new created) ran : Reachable true true _ _ _)
  exact ⟨pool, pool', _, free, created, ran, ledger⟩

/-- A block that is found by its hash is taken only after all free blocks that are not. -/
theorem reachable_takes_unhashed_first {taken : List (KvCacheEvent η)} {n : Nat} {ret : List BlockRef}
    (reachable : Reachable false truthful pool held taken) (ran : pool.getNewBlocks n = .ok (ret, pool'))
    (evicted : ∃ block ∈ ret, ∃ key, block ∈ pool.under key) {block : BlockRef}
    (member : block ∈ allBlocks pool.numGpuBlocks) (different : block ≠ pool.nullBlock) (unheld : held block = 0)
    (unhashed : ∀ key, block ∉ pool.under key) : block ∈ ret := by
  obtain ⟨free, invariant⟩ := reachable_invariant reachable
  obtain ⟨rfl, enough, _⟩ := invariant_getNewBlocks invariant ran
  obtain ⟨first, last, rfl, none_first, all_last⟩ := invariant.sorted rfl
  obtain ⟨other, taken_other, key, found⟩ := evicted
  have keyed := (invariant.indexed.under_iff key other).mp found
  -- The hashed block is behind all others, so at least these were taken.
  have long : first.length ≤ n := by
    by_contra short
    rw [List.take_append_of_le_length (by omega)] at taken_other
    rw [none_first other (List.mem_of_mem_take taken_other)] at keyed
    exact absurd keyed List.not_mem_nil
  have no_keys : pool.keysOf block = [] := List.eq_nil_iff_forall_not_mem.mpr fun key keyed =>
    unhashed key ((invariant.indexed.under_iff key block).mpr keyed)
  have here := (invariant.counted.free_iff block).mpr ⟨member, different, unheld⟩
  have early : block ∈ first := (List.mem_append.mp here).resolve_right fun late => all_last block late no_keys
  rw [List.take_append, List.take_of_length_le long]
  exact List.mem_append_left _ early

/-- Of three free blocks one is taken, cached and given back. -/
def sampleRun : Except KvError (BlockPool Nat) := do
  let hasher : Hasher Nat := ⟨fun parent tokens _ => parent + tokens.length, 0, 2, Nat.two_pos⟩
  let request := Request.fromEngineCoreRequest hasher (sampleArrival [5, 6] none none)
  let pool ← BlockPool.new 4 true 2 true
  let (ret, pool) ← pool.getNewBlocks 1
  let pool ← pool.cacheFullBlocks request ret 0 1 2 0 none
  pool.freeBlocks ret

theorem reachable_sampleRun : ∃ pool pool' : BlockPool Nat,
    sampleRun = .ok pool ∧ pool.getNewBlocks 3 = .ok ([.pooled 2, .pooled 3, .pooled 1], pool') ∧
      pool.under (2, 0) = [.pooled 1] ∧ pool.keysOf (.pooled 2) = [] ∧
      pool.numGpuBlocks = 4 ∧ pool.nullBlock = .pooled 0 ∧ pool.enableKvCacheEvents = true ∧
      Reachable false true pool (fun block => 0 + [.pooled 1].count block - [.pooled 1].count block) [] := by
  obtain ⟨pool, ran⟩ : ∃ pool, sampleRun = .ok pool := ⟨_, rfl⟩
  refine ⟨pool, ?_⟩
  obtain ⟨start, created, steps⟩ := bind_eq_ok.mp ran
  obtain ⟨⟨ret, given⟩, taken, steps⟩ := bind_eq_ok.mp steps
  obtain ⟨cached, kept, freed⟩ := bind_eq_ok.mp steps
  have first : Reachable false true start (fun _ => 0) [] := .new created
  have second := first.getNewBlocks taken
  obtain rfl := Except.ok.inj created
  obtain ⟨rfl, rfl⟩ := Prod.mk.inj (Except.ok.inj taken)
  have taken_one : ∀ block ∈ slice [BlockRef.pooled 1] 0 1, block = .pooled 1 := fun _ => List.mem_singleton.mp
  have distinct : (slice [BlockRef.pooled 1] 0 1).Nodup := List.nodup_singleton _
  have third := second.cacheFullBlocks rfl (fun _ => nodup_realBlocks distinct) (fun block member _ => by simp [taken_one block member]) kept
  have last := third.freeBlocks (fun block _ => Nat.le_add_left ..) freed
  obtain rfl := Except.ok.inj ran
  exact ⟨_, rfl, rfl, rfl, rfl, rfl, rfl, rfl, last⟩

theorem reachable_takes_unhashed_first_sample : ∃ pool pool' : BlockPool Nat, ∃ ret,
    sampleRun = .ok pool ∧ pool.getNewBlocks 3 = .ok (ret, pool') ∧ .pooled 2 ∈ ret := by
  obtain ⟨pool, pool', ran, taken, found, no_keys, size, null, _, reachable⟩ := reachable_sampleRun
  obtain ⟨_, invariant⟩ := reachable_invariant reachable
  refine ⟨pool, pool', _, ran, taken, reachable_takes_unhashed_first reachable taken
    ⟨.pooled 1, by decide, (2, 0), by simp [found]⟩ ?_ ?_ (by decide) fun key => ?_⟩
  · rw [size]
    decide
  · rw [null]
    decide
  · rw [invariant.indexed.under_iff, no_keys]
    exact List.not_mem_nil

/-! ### The view of a router -/

section Router

variable {ε : Type} [DecidableEq ε] (external : η → ε)

/-- A router keeps a list of what is cached. The hashes it gets may have been shortened. -/
def follow (view : List (ε × Nat)) : KvCacheEvent η → List (ε × Nat)
  | .blockStored blockHashes _ _ _ groupIdx => view ++ blockHashes.map fun blockHash => (external blockHash, groupIdx)
  | .blockRemoved blockHash groupIdx => view.filter (· ≠ (external blockHash, groupIdx))
  | .allBlocksCleared => []

/-- All that the view has is cached. -/
def Claims (pool : BlockPool η) (view : List (ε × Nat)) : Prop :=
  ∀ entry ∈ view, ∃ key : η × Nat, (external key.1, key.2) = entry ∧ pool.under key ≠ []

/-- The router has seen the events taken and will see those in the queue. -/
def Followed (taken : List (KvCacheEvent η)) (pool : BlockPool η) : Prop :=
  pool.enableKvCacheEvents = true → Claims external pool ((taken ++ pool.kvEventQueue).foldl (follow external) [])

variable {external} {taken : List (KvCacheEvent η)}

omit [DecidableEq η] in
theorem foldl_follow_removed (view : List (ε × Nat)) (keys : List (η × Nat)) :
    (keys.map fun key => KvCacheEvent.blockRemoved key.1 key.2).foldl (follow external) view =
      view.filter fun entry => entry ∉ keys.map fun key => (external key.1, key.2) := by
  induction keys generalizing view with
  | nil => simp
  | cons key keys ih =>
    rw [List.map_cons, List.foldl_cons, ih, follow, List.filter_filter]
    exact List.filter_congr fun entry _ => by
      rw [Bool.eq_iff_iff]
      simp [and_comm]

theorem Followed.evicted {block : BlockRef} (indexed : Indexed pool) (followed : Followed external taken pool)
    (evicted : Evicted pool block pool') : Followed external taken pool' := by
  intro enabled'
  have enabled : pool.enableKvCacheEvents = true := evicted.sameCounts.enableKvCacheEvents.symm.trans enabled'
  rw [evicted.events, if_pos enabled, ← List.append_assoc, List.foldl_append, foldl_follow_removed]
  intro entry member
  obtain ⟨before, left⟩ := List.mem_filter.mp member
  obtain ⟨key, rfl, found⟩ := followed enabled entry before
  refine ⟨key, rfl, fun gone => ?_⟩
  -- Without any block left, the one removed was under this key, and its removal was announced.
  rw [evicted.under_eq] at gone
  obtain ⟨other, rest, same⟩ := List.exists_cons_of_ne_nil found
  have here : block ∈ pool.under key := by
    by_contra absent
    rw [List.erase_of_not_mem absent] at gone
    exact found gone
  have listed := (indexed.under_iff key block).mp here
  exact of_decide_eq_true left (List.mem_map.mpr ⟨key, listed, rfl⟩)

theorem Followed.added {key : η × Nat} {block : BlockRef} (followed : Followed external taken pool)
    (added : KeyAdded pool key block pool') : Followed external taken pool' := by
  intro enabled'
  rw [added.events]
  intro entry member
  obtain ⟨other, same, found⟩ := followed (added.sameCounts.enableKvCacheEvents.symm.trans enabled') entry member
  refine ⟨other, same, ?_⟩
  rw [added.under_eq]
  split
  · simp
  · exact found

theorem Followed.index (followed : Followed external taken pool) (same : SameIndex pool pool') :
    Followed external taken pool' := by
  intro enabled'
  rw [same.kvEventQueue]
  intro entry member
  obtain ⟨key, here, found⟩ := followed (same.enableKvCacheEvents.symm.trans enabled') entry member
  exact ⟨key, here, by rwa [BlockPool.under, same.cachedBlockHashToBlock]⟩

theorem Followed.steps {touched : BlockRef → Prop} (indexed : Indexed pool) (followed : Followed external taken pool)
    (steps : IndexSteps touched pool pool') : Followed external taken pool' := by
  induction steps with
  | refl => exact followed
  | evict steps _ evicted ih => exact ih.evicted (steps.indexed indexed) evicted
  | add _ _ added ih => exact ih.added added
  | count _ same ih => exact ih.index same

theorem Followed.announced {blockHashes : List η} {parent : Option η} {tokenIds : List Int} {blockSize groupIdx : Nat}
    (followed : Followed external taken pool)
    (announced : Announced pool (.blockStored blockHashes parent tokenIds blockSize groupIdx) pool')
    (found : ∀ blockHash ∈ blockHashes, pool.under (blockHash, groupIdx) ≠ []) : Followed external taken pool' := by
  obtain ⟨enabled, rfl⟩ := announced
  intro _
  rw [← List.append_assoc, List.foldl_append]
  intro entry member
  rcases List.mem_append.mp member with before | new
  · exact followed enabled entry before
  · obtain ⟨blockHash, listed, rfl⟩ := List.mem_map.mp new
    exact ⟨(blockHash, groupIdx), rfl, found blockHash listed⟩

/-- A router that follows the events of truthful callers never takes anything to be cached that is not. -/
theorem reachable_followed (external : η → ε) (reachable : Reachable evicts true pool held taken) :
    Followed external taken pool := by
  induction reachable with
  | new created =>
    obtain ⟨_, created⟩ := assertThat_bind.mp created
    obtain ⟨_, _, created⟩ := bind_eq_ok.mp created
    obtain rfl := Except.ok.inj created
    exact fun _ entry member => absurd member List.not_mem_nil
  | getNewBlocks before ran ih =>
    obtain ⟨free, invariant⟩ := reachable_invariant before
    obtain ⟨_, enough, _⟩ := invariant_getNewBlocks invariant ran
    obtain ⟨_, same, _, steps, _⟩ := getNewBlocks_spec invariant.counted invariant.indexed enough
    obtain ⟨_, rfl⟩ := Prod.mk.inj (Except.ok.inj (same.symm.trans ran))
    exact ih.steps invariant.indexed steps
  | touch before members ran ih =>
    obtain ⟨free, invariant⟩ := reachable_invariant before
    obtain ⟨_, same, index, _⟩ := touch_spec invariant.counted members
    obtain rfl := Except.ok.inj (same.symm.trans ran)
    exact ih.index index
  | freeBlocks before owned ran ih =>
    obtain ⟨free, invariant⟩ := reachable_invariant before
    obtain ⟨_, _, _, same, index, _⟩ := freeBlocks_spec invariant.counted owned
    obtain rfl := Except.ok.inj (same.symm.trans ran)
    exact ih.index index
  | cacheFullBlocks before _ distinct _ ran ih =>
    obtain ⟨free, invariant⟩ := reachable_invariant before
    obtain ⟨mid, steps, _, rest⟩ := cacheFullBlocks_steps invariant.indexed ran
    have followed := ih.steps invariant.indexed steps
    rcases rest with rfl | ⟨_, _, _, announced, found⟩
    · exact followed
    · exact followed.announced announced (found (distinct rfl))
  | emitCachedBlockEvents _ found ran ih =>
    rcases emitCachedBlockEvents_steps ran with rfl | ⟨blockHashes, _, resolved, announced⟩
    · exact ih
    · exact ih.announced announced (found rfl blockHashes resolved)
  | cachePartialBlock before _ _ ran ih =>
    obtain ⟨free, invariant⟩ := reachable_invariant before
    obtain ⟨mid, steps, _, rest⟩ := cachePartialBlock_steps invariant.indexed ran
    have followed := ih.steps invariant.indexed steps
    rcases rest with rfl | ⟨_, _, _, _, announced, found⟩
    · exact followed
    · exact followed.announced announced fun _ member => List.mem_singleton.mp member ▸ found
  | evictBlocks before _ ran ih =>
    obtain ⟨free, invariant⟩ := reachable_invariant before
    exact ih.steps invariant.indexed (evictBlocks_steps invariant.indexed ran).1
  | resetPrefixCache _ ih =>
    unfold resetPrefixCache
    dsimp only
    split
    · exact ih
    · intro enabled
      have on : _ = true := enabled
      rw [if_pos on, ← List.append_assoc, List.foldl_append]
      exact fun _ member => absurd member List.not_mem_nil
  | takeEvents _ ih =>
    unfold takeEvents
    split
    · intro enabled entry member
      rw [List.append_nil] at member
      exact ih enabled entry member
    · rwa [List.append_nil]

end Router

theorem reachable_followed_sample : ∃ pool : BlockPool Nat, sampleRun = .ok pool ∧
    Claims (· % 2) pool (pool.kvEventQueue.foldl (follow (· % 2)) []) := by
  obtain ⟨pool, _, ran, _, _, _, _, _, enabled, reachable⟩ := reachable_sampleRun
  exact ⟨pool, ran, reachable_followed (· % 2) reachable enabled⟩

end DreamAifd.KvCache.BlockPool
