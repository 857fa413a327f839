import DreamAifd.KvCacheManager
import DreamAifd.PoolRuns

/-! The tables of the managers are the ledger of the pool: how often a block stands in them is how often it
is held, and a block that a request still writes to stands in its table only. -/
namespace DreamAifd.KvCache

open BlockPool

variable {η : Type} [DecidableEq η]

structure SamePool (pool pool' : BlockPool η) : Prop where
  numGpuBlocks : pool'.numGpuBlocks = pool.numGpuBlocks
  enableCaching : pool'.enableCaching = pool.enableCaching
  hashBlockSize : pool'.hashBlockSize = pool.hashBlockSize
  nullBlock : pool'.nullBlock = pool.nullBlock

namespace SamePool

variable {pool pool' pool'' : BlockPool η}

omit [DecidableEq η] in
theorem refl (pool : BlockPool η) : SamePool pool pool := ⟨rfl, rfl, rfl, rfl⟩

omit [DecidableEq η] in
theorem trans (first : SamePool pool pool') (second : SamePool pool' pool'') : SamePool pool pool'' :=
  ⟨second.numGpuBlocks.trans first.numGpuBlocks, second.enableCaching.trans first.enableCaching,
    second.hashBlockSize.trans first.hashBlockSize, second.nullBlock.trans first.nullBlock⟩

omit [DecidableEq η] in
theorem of_sameIndex (same : SameIndex pool pool') : SamePool pool pool' :=
  ⟨same.numGpuBlocks, same.enableCaching, same.hashBlockSize, same.nullBlock⟩

omit [DecidableEq η] in
theorem of_sameCounts (same : SameCounts pool pool') : SamePool pool pool' :=
  ⟨same.numGpuBlocks, same.enableCaching, same.hashBlockSize, same.nullBlock⟩

end SamePool

/-- In some run of the pool its callers come to hold each block so often, and these are left free. -/
def Held (evicts : Bool) (pool : BlockPool η) (free : List BlockRef) (count : BlockRef → Nat) : Prop :=
  ∃ held taken, Reachable evicts true pool held taken ∧ Invariant evicts pool held free ∧
    ∀ block ≠ pool.nullBlock, held block = count block

namespace Held

variable {evicts : Bool} {pool pool' : BlockPool η} {free : List BlockRef} {count : BlockRef → Nat}

theorem numFree (held : Held evicts pool free count) : pool.getNumFreeBlocks = free.length := by
  obtain ⟨_, _, _, invariant, _⟩ := held
  exact invariant.counted.numFree

theorem listed (held : Held evicts pool free count) {fuel : Nat} (enough : free.length < fuel) :
    pool.freeBlockQueue.getAllFreeBlocks fuel = .ok (some free) := by
  obtain ⟨_, _, _, invariant, _⟩ := held
  exact FreeBlockQueue.getAllFreeBlocks_spec invariant.counted.represents enough

theorem nodup (held : Held evicts pool free count) : free.Nodup := by
  obtain ⟨_, _, _, invariant, _⟩ := held
  exact invariant.counted.represents.nodup

theorem mem_free (held : Held evicts pool free count) {block : BlockRef} : block ∈ free ↔
    block ∈ allBlocks pool.numGpuBlocks ∧ block ≠ pool.nullBlock ∧ count block = 0 := by
  obtain ⟨_, _, _, invariant, same⟩ := held
  rw [invariant.counted.free_iff]
  refine and_congr_right fun _ => and_congr_right fun different => ?_
  rw [same block different]

theorem refCnt (held : Held evicts pool free count) {block : BlockRef} (different : block ≠ pool.nullBlock) :
    (pool.blocks block).refCnt = count block := by
  obtain ⟨_, _, _, invariant, same⟩ := held
  rw [invariant.counted.refCnt_eq block different, same block different]

theorem isNull_iff (held : Held evicts pool free count) (block : BlockRef) :
    (pool.blocks block).isNull = true ↔ block = pool.nullBlock := by
  obtain ⟨_, _, _, invariant, _⟩ := held
  exact invariant.counted.isNull_iff block

theorem null_mem (held : Held evicts pool free count) : pool.nullBlock ∈ allBlocks pool.numGpuBlocks := by
  obtain ⟨_, _, _, invariant, _⟩ := held
  exact invariant.counted.null_mem

theorem mem_of_pos (held : Held evicts pool free count) {block : BlockRef} (different : block ≠ pool.nullBlock)
    (used : 0 < count block) : block ∈ allBlocks pool.numGpuBlocks := by
  obtain ⟨_, _, _, invariant, same⟩ := held
  exact invariant.counted.held_mem block (by rw [same block different]; exact used.ne')

theorem indexed (held : Held evicts pool free count) : Indexed pool := by
  obtain ⟨_, _, _, invariant, _⟩ := held
  exact invariant.indexed

theorem keyed (held : Held evicts pool free count) {block : BlockRef} (keys : pool.keysOf block ≠ []) :
    block ∈ allBlocks pool.numGpuBlocks ∧ block ≠ pool.nullBlock := by
  obtain ⟨_, _, _, invariant, _⟩ := held
  exact invariant.keyed block keys

theorem congr {count' : BlockRef → Nat} (held : Held evicts pool free count)
    (same : ∀ block ≠ pool.nullBlock, count' block = count block) : Held evicts pool free count' := by
  obtain ⟨ledger, taken, reachable, invariant, agree⟩ := held
  exact ⟨ledger, taken, reachable, invariant, fun block different => (agree block different).trans (same block different).symm⟩

theorem getNewBlocks (held : Held evicts pool free count) {n : Nat} (enough : n ≤ free.length) :
    ∃ pool', pool.getNewBlocks n = .ok (free.take n, pool') ∧
      Held evicts pool' (free.drop n) (fun block => count block + (free.take n).count block) ∧
      SamePool pool pool' ∧ (∀ block ∈ free.take n, pool'.keysOf block = []) ∧
      (∀ block ∉ free.take n, pool'.keysOf block = pool.keysOf block) ∧
      (∀ key block, block ∈ pool'.under key → block ∈ pool.under key) := by
  obtain ⟨ledger, taken, reachable, invariant, agree⟩ := held
  obtain ⟨pool', ran, _, steps, caching, size, _, number, null, keys⟩ :=
    getNewBlocks_spec invariant.counted invariant.indexed enough
  have invariant' := (invariant_getNewBlocks invariant ran).2.2
  have fewer : ∀ block key, key ∈ pool'.keysOf block → key ∈ pool.keysOf block := by
    intro block key member
    rw [keys] at member
    split at member
    · exact absurd member List.not_mem_nil
    · exact member
  refine ⟨pool', ran, ⟨_, taken, reachable.getNewBlocks ran, invariant', fun block different => ?_⟩,
    ⟨number, caching, size, null⟩, fun block member => ?_, fun block absent => ?_, fun key block found => ?_⟩
  · rw [agree block (null ▸ different)]
  · rw [keys]
    split
    · rfl
    next off => exact invariant.uncached (by simpa [member] using off) block
  · rw [keys, if_neg fun both => absent both.2]
  · exact (invariant.indexed.under_iff key block).mpr (fewer block key ((invariant'.indexed.under_iff key block).mp found))

theorem touch (held : Held evicts pool free count) {blocks : List BlockRef}
    (members : ∀ block ∈ blocks, block ∈ allBlocks pool.numGpuBlocks) :
    ∃ pool', pool.touch blocks = .ok pool' ∧
      Held evicts pool' (free.filter (· ∉ blocks)) (fun block => count block + blocks.count block) ∧
      SameIndex pool pool' := by
  obtain ⟨ledger, taken, reachable, invariant, agree⟩ := held
  obtain ⟨pool', ran, index, _⟩ := touch_spec invariant.counted members
  refine ⟨pool', ran, ⟨_, taken, reachable.touch members ran, invariant_touch invariant members ran,
    fun block different => ?_⟩, index⟩
  rw [agree block (index.nullBlock ▸ different)]

theorem freeBlocks (held : Held evicts pool free count) {ordered : List BlockRef}
    (owned : ∀ block ≠ pool.nullBlock, ordered.count block ≤ count block) :
    ∃ pool' free', pool.freeBlocks ordered = .ok pool' ∧
      Held evicts pool' free' (fun block => count block - ordered.count block) ∧ SameIndex pool pool' := by
  obtain ⟨ledger, taken, reachable, invariant, agree⟩ := held
  have owned' : ∀ block ≠ pool.nullBlock, ordered.count block ≤ ledger block := fun block different => by
    rw [agree block different]
    exact owned block different
  obtain ⟨pool', _, _, ran, index, _⟩ := freeBlocks_spec invariant.counted owned'
  obtain ⟨withHash, withoutHash, invariant'⟩ := invariant_freeBlocks invariant owned' ran
  refine ⟨pool', _, ran, ⟨_, taken, reachable.freeBlocks owned' ran, invariant', fun block different => ?_⟩, index⟩
  rw [agree block (index.nullBlock ▸ different)]

theorem cacheFullBlocks (held : Held evicts pool free count) {request : Request η} {blocks : List BlockRef}
    {numCached numFull blockSize groupId : Nat} {blockMask : Option (List Bool)}
    (caching : pool.enableCaching = true)
    (distinct : (pool.realBlocks (slice blocks numCached numFull)).Nodup)
    (owned : ∀ block ∈ slice blocks numCached numFull, block ≠ pool.nullBlock → count block ≠ 0)
    (ran : pool.cacheFullBlocks request blocks numCached numFull blockSize groupId blockMask = .ok pool') :
    Held evicts pool' free count ∧ SamePool pool pool' ∧
      ∀ block ∉ pool.realBlocks (slice blocks numCached numFull), pool'.keysOf block = pool.keysOf block := by
  obtain ⟨ledger, taken, reachable, invariant, agree⟩ := held
  have owned' : ∀ block ∈ slice blocks numCached numFull, block ≠ pool.nullBlock → ledger block ≠ 0 :=
    fun block member different => by
      rw [agree block different]
      exact owned block member different
  obtain ⟨mid, steps, counts, rest⟩ := cacheFullBlocks_steps invariant.indexed ran
  have kept : ∀ block ∉ pool.realBlocks (slice blocks numCached numFull), mid.keysOf block = pool.keysOf block :=
    fun block absent => steps.frame fun here => absent (List.mem_filter.mpr ⟨here.1, by simp [here.2]⟩)
  have cached := invariant_held invariant caching owned' steps counts
  have reached := reachable.cacheFullBlocks caching (fun _ => distinct) owned' ran
  rcases rest with rfl | ⟨_, _, _, announced, _⟩
  · exact ⟨⟨ledger, taken, reached, cached, fun block different => agree block (counts.nullBlock ▸ different)⟩,
      .of_sameCounts counts, kept⟩
  · have cached' := invariant_announced cached announced
    obtain ⟨_, rfl⟩ := announced
    exact ⟨⟨ledger, taken, reached, cached', fun block different => agree block (counts.nullBlock ▸ different)⟩,
      ⟨counts.numGpuBlocks, counts.enableCaching, counts.hashBlockSize, counts.nullBlock⟩, kept⟩

theorem evictBlocks (held : Held true pool free count) {blockIds : List Nat}
    (ran : pool.evictBlocks blockIds = .ok pool') :
    Held true pool' free count ∧ SamePool pool pool' ∧ ∀ block, pool'.keysOf block ⊆ pool.keysOf block := by
  obtain ⟨ledger, taken, reachable, invariant, agree⟩ := held
  obtain ⟨steps, counts, keys⟩ := evictBlocks_steps invariant.indexed ran
  exact ⟨⟨ledger, taken, reachable.evictBlocks rfl ran, invariant_evictBlocks invariant rfl ran,
    fun block different => agree block (counts.nullBlock ▸ different)⟩, .of_sameCounts counts, keys⟩

theorem resetPrefixCache (held : Held evicts pool free count) :
    Held evicts pool.resetPrefixCache.2 free count ∧ SamePool pool pool.resetPrefixCache.2 ∧
      ∀ block, pool.resetPrefixCache.2.keysOf block ⊆ pool.keysOf block := by
  obtain ⟨ledger, taken, reachable, invariant, agree⟩ := held
  have invariant' := invariant_resetPrefixCache invariant
  have same : SamePool pool pool.resetPrefixCache.2 := by
    unfold BlockPool.resetPrefixCache
    dsimp only
    split <;> exact ⟨rfl, rfl, rfl, rfl⟩
  refine ⟨⟨ledger, taken, reachable.resetPrefixCache, invariant', fun block different =>
    agree block (same.nullBlock ▸ different)⟩, same, fun block key keyed => ?_⟩
  have found := (invariant'.indexed.under_iff key block).mpr keyed
  unfold BlockPool.resetPrefixCache at found
  dsimp only at found
  split at found
  · exact (invariant.indexed.under_iff key block).mp found
  · simp [BlockPool.under, BlockHashToBlockMap.entries] at found

theorem takeEvents (held : Held evicts pool free count) :
    Held evicts pool.takeEvents.2 free count ∧ SameIndex { pool with kvEventQueue := pool.takeEvents.2.kvEventQueue }
      pool.takeEvents.2 := by
  obtain ⟨ledger, taken, reachable, invariant, agree⟩ := held
  have reached := reachable.takeEvents
  unfold BlockPool.takeEvents at reached ⊢
  split
  next enabled =>
    rw [if_pos enabled] at reached
    exact ⟨⟨ledger, _, reached, invariant_events invariant, agree⟩, .refl _⟩
  next disabled =>
    rw [if_neg disabled] at reached
    exact ⟨⟨ledger, _, reached, invariant, agree⟩, .refl _⟩

end Held

/-! ### How often a block stands in the tables -/

namespace SingleTypeKvCacheManager

def count (manager : SingleTypeKvCacheManager) (block : BlockRef) : Nat :=
  manager.reqToBlocks.total (·.count block)

structure EntryStep (requestId : String) (manager manager' : SingleTypeKvCacheManager) : Prop where
  config : manager'.toManagerConfig = manager.toManagerConfig
  tables : ∀ other ≠ requestId, manager'.reqToBlocks.get? other = manager.reqToBlocks.get? other
  cached : ∀ other ≠ requestId, manager'.numCachedBlock.get? other = manager.numCachedBlock.get? other

variable {manager manager' : SingleTypeKvCacheManager} {requestId : String} {block : BlockRef}

theorem EntryStep.refl (requestId : String) (manager : SingleTypeKvCacheManager) :
    EntryStep requestId manager manager := ⟨rfl, fun _ _ => rfl, fun _ _ => rfl⟩

theorem EntryStep.trans {manager'' : SingleTypeKvCacheManager} (first : EntryStep requestId manager manager')
    (second : EntryStep requestId manager' manager'') : EntryStep requestId manager manager'' :=
  ⟨second.config.trans first.config, fun other different => (second.tables other different).trans (first.tables other different),
    fun other different => (second.cached other different).trans (first.cached other different)⟩

theorem EntryStep.blocksOf (step : EntryStep requestId manager manager') {other : String}
    (different : other ≠ requestId) : manager'.blocksOf other = manager.blocksOf other := by
  rw [SingleTypeKvCacheManager.blocksOf, SingleTypeKvCacheManager.blocksOf, step.tables other different]

theorem EntryStep.numCached (step : EntryStep requestId manager manager') {other : String}
    (different : other ≠ requestId) : manager'.numCached other = manager.numCached other := by
  rw [SingleTypeKvCacheManager.numCached, SingleTypeKvCacheManager.numCached, step.cached other different]

theorem count_blocksOf (manager : SingleTypeKvCacheManager) (requestId : String) (block : BlockRef) :
    (manager.reqToBlocks.get? requestId).elim 0 (·.count block) = (manager.blocksOf requestId).count block := by
  unfold blocksOf
  cases manager.reqToBlocks.get? requestId <;> rfl

theorem EntryStep.count (step : EntryStep requestId manager manager') (block : BlockRef) :
    manager'.count block + (manager.blocksOf requestId).count block =
      manager.count block + (manager'.blocksOf requestId).count block := by
  rw [← count_blocksOf, ← count_blocksOf]
  exact Dict.total_of_agree _ requestId step.tables

theorem count_le (manager : SingleTypeKvCacheManager) (requestId : String) (block : BlockRef) :
    (manager.blocksOf requestId).count block ≤ manager.count block := by
  unfold blocksOf
  cases present : manager.reqToBlocks.get? requestId with
  | none => exact Nat.zero_le _
  | some blocks => exact Dict.le_total present (·.count block)

theorem count_add_le {other : String} (different : requestId ≠ other) :
    (manager.blocksOf requestId).count block + (manager.blocksOf other).count block ≤ manager.count block := by
  cases present : manager.reqToBlocks.get? requestId with
  | none =>
    have nothing : manager.blocksOf requestId = [] := by simp [blocksOf, present]
    rw [nothing, List.count_nil, Nat.zero_add]
    exact count_le manager other block
  | some blocks =>
    cases present' : manager.reqToBlocks.get? other with
    | none =>
      have nothing : manager.blocksOf other = [] := by simp [blocksOf, present']
      rw [nothing, List.count_nil, Nat.add_zero]
      exact count_le manager requestId block
    | some blocks' =>
      have two := Dict.add_le_total present present' different (·.count block)
      simpa [blocksOf, present, present', SingleTypeKvCacheManager.count] using two

/-- The block stands in the table of the request, behind those that are cached. -/
def Open (manager : SingleTypeKvCacheManager) (requestId : String) (block : BlockRef) : Prop :=
  ∃ i, manager.numCached requestId ≤ i ∧ (manager.blocksOf requestId)[i]? = some block

theorem Open.mem (here : manager.Open requestId block) : block ∈ manager.blocksOf requestId := by
  obtain ⟨_, _, at_i⟩ := here
  exact List.mem_of_getElem? at_i

end SingleTypeKvCacheManager

/-- How often a block stands in the tables of all groups. -/
def tableCount (managers : List SingleTypeKvCacheManager) (block : BlockRef) : Nat :=
  (managers.map (·.count block)).sum

section Tables

variable {pre post managers : List SingleTypeKvCacheManager} {manager manager' : SingleTypeKvCacheManager}
  {requestId : String} {block : BlockRef}

theorem tableCount_split (pre post : List SingleTypeKvCacheManager) (manager : SingleTypeKvCacheManager)
    (block : BlockRef) : tableCount (pre ++ manager :: post) block =
      tableCount pre block + manager.count block + tableCount post block := by
  simp [tableCount, Nat.add_assoc]

theorem count_le_tableCount (member : manager ∈ managers) (block : BlockRef) :
    manager.count block ≤ tableCount managers block :=
  List.single_le_sum (fun _ _ => Nat.zero_le _) _ (List.mem_map_of_mem member)

theorem tableCount_pos (member : manager ∈ managers) (here : block ∈ manager.blocksOf requestId) :
    0 < tableCount managers block :=
  lt_of_lt_of_le (List.count_pos_iff.mpr here)
    ((manager.count_le requestId block).trans (count_le_tableCount member block))

theorem tableCount_step (pre post : List SingleTypeKvCacheManager) (step : manager.EntryStep requestId manager') (block : BlockRef) :
    tableCount (pre ++ manager' :: post) block + (manager.blocksOf requestId).count block =
      tableCount (pre ++ manager :: post) block + (manager'.blocksOf requestId).count block := by
  have counts := step.count block
  rw [tableCount_split, tableCount_split]
  omega

/-- Two entries with a block make it count twice. -/
theorem tableCount_two {other : String} {owner : SingleTypeKvCacheManager}
    (elsewhere : owner ∈ pre ∨ owner ∈ post ∨ owner = manager ∧ other ≠ requestId)
    (there : block ∈ owner.blocksOf other) (here : block ∈ manager.blocksOf requestId) :
    2 ≤ tableCount (pre ++ manager :: post) block := by
  have one := List.count_pos_iff.mpr here
  have mine := manager.count_le requestId block
  rw [tableCount_split]
  rcases elsewhere with before | after | ⟨rfl, different⟩
  · have more := tableCount_pos before there
    omega
  · have more := tableCount_pos after there
    omega
  · have another := List.count_pos_iff.mpr there
    have both : (owner.blocksOf other).count block + (owner.blocksOf requestId).count block ≤ owner.count block :=
      SingleTypeKvCacheManager.count_add_le different
    omega

/-- A block that a request may yet write to is in no other place, and is not to be found in the cache. -/
def PrivateTails (managers : List SingleTypeKvCacheManager) (pool : BlockPool η) : Prop :=
  ∀ manager ∈ managers, ∀ requestId block, manager.Open requestId block → block ≠ pool.nullBlock →
    tableCount managers block = 1 ∧ pool.keysOf block = []

structure Ledger (evicts : Bool) (pool : BlockPool η) (free : List BlockRef)
    (managers : List SingleTypeKvCacheManager) : Prop where
  held : Held evicts pool free (tableCount managers)
  isolated : PrivateTails managers pool

variable {evicts : Bool} {pool pool' : BlockPool η} {free free' : List BlockRef}

/-- A step of one manager for one request. It has to answer for its own blocks, and to leave the private blocks
of others as they are. -/
theorem Ledger.step (ledger : Ledger evicts pool free (pre ++ manager :: post))
    (entry : manager.EntryStep requestId manager') (same : SamePool pool pool')
    (held : Held evicts pool' free' (tableCount (pre ++ manager' :: post)))
    (spared : ∀ block ≠ pool.nullBlock, block ∉ manager.blocksOf requestId →
      tableCount (pre ++ manager :: post) block ≠ 0 → pool.keysOf block = [] →
      pool'.keysOf block = [] ∧ block ∉ manager'.blocksOf requestId)
    (own : ∀ block, manager'.Open requestId block → block ≠ pool.nullBlock →
      tableCount (pre ++ manager' :: post) block = 1 ∧ pool'.keysOf block = []) :
    Ledger evicts pool' free' (pre ++ manager' :: post) := by
  refine ⟨held, fun owner member other block here different => ?_⟩
  rw [same.nullBlock] at different
  by_cases mine : owner = manager' ∧ other = requestId
  · obtain ⟨rfl, rfl⟩ := mine
    exact own block here different
  -- The entry is one that the step leaves alone.
  have unchanged : ∃ owner', owner'.Open other block ∧
      (owner' ∈ pre ∨ owner' ∈ post ∨ owner' = manager ∧ other ≠ requestId) := by
    rcases List.mem_append.mp member with before | after
    · exact ⟨owner, here, .inl before⟩
    rcases List.mem_cons.mp after with rfl | after
    · have elsewhere : other ≠ requestId := fun same_id => mine ⟨rfl, same_id⟩
      obtain ⟨i, behind, at_i⟩ := here
      rw [entry.numCached elsewhere] at behind
      rw [entry.blocksOf elsewhere] at at_i
      exact ⟨manager, ⟨i, behind, at_i⟩, .inr (.inr ⟨rfl, elsewhere⟩)⟩
    · exact ⟨owner, here, .inr (.inl after)⟩
  obtain ⟨owner', open', elsewhere⟩ := unchanged
  have member' : owner' ∈ pre ++ manager :: post := by
    rcases elsewhere with before | after | ⟨rfl, _⟩
    · exact List.mem_append_left _ before
    · exact List.mem_append_right _ (List.mem_cons_of_mem _ after)
    · exact List.mem_append_right _ List.mem_cons_self
  obtain ⟨once, unkeyed⟩ := ledger.isolated owner' member' other block open' different
  have absent : block ∉ manager.blocksOf requestId := fun inside => by
    have twice := tableCount_two elsewhere open'.mem inside
    omega
  obtain ⟨unkeyed', absent'⟩ := spared block different absent (by omega) unkeyed
  have counts := tableCount_step pre post entry block
  rw [List.count_eq_zero_of_not_mem absent, List.count_eq_zero_of_not_mem absent'] at counts
  exact ⟨by omega, unkeyed'⟩

end Tables

end DreamAifd.KvCache
