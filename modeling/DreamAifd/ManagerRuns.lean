import DreamAifd.SlotAllocation

/-! Whole runs of the manager: what it has for each request is what the pool counts, and its callers can go on. -/
namespace DreamAifd.KvCache

open BlockPool SingleTypeKvCacheManager

variable {η : Type} [DecidableEq η] {evicts : Bool}

section Changes

variable {pool pool' : BlockPool η} {free : List BlockRef} {managers : List SingleTypeKvCacheManager}

/-- The pool alone may forget what it can find. -/
theorem Ledger.fewer (ledger : Ledger evicts pool free managers) (held : Held evicts pool' free (tableCount managers))
    (same : SamePool pool pool') (keys : ∀ block, pool'.keysOf block ⊆ pool.keysOf block) :
    Ledger evicts pool' free managers := by
  refine ⟨held, fun manager member requestId block here different => ?_⟩
  obtain ⟨once, unkeyed⟩ := ledger.isolated manager member requestId block here (same.nullBlock ▸ different)
  exact ⟨once, List.eq_nil_of_subset_nil (unkeyed ▸ keys block)⟩

theorem KvCacheManager.Consistent.fewer {manager : KvCacheManager η} (consistent : manager.Consistent evicts free)
    (held : Held evicts pool' free (tableCount manager.coordinator.managers))
    (same : SamePool manager.coordinator.pool pool')
    (keys : ∀ block, pool'.keysOf block ⊆ manager.coordinator.pool.keysOf block) :
    KvCacheManager.Consistent evicts
      { manager with coordinator := { manager.coordinator with pool := pool' } } free := by
  refine ⟨consistent.ledger.fewer held same keys, fun one member => ?_,
    ⟨consistent.formed.specs, consistent.formed.ids, ?_⟩, consistent.caching.trans same.enableCaching.symm⟩
  · rw [same.hashBlockSize, same.enableCaching]
    exact consistent.wired one member
  · rw [same.hashBlockSize, same.enableCaching]
    exact consistent.formed.suits

end Changes

/-! ### The start -/

theorem mem_eagleGroups {useEagle : Bool} {groups : List KvCacheGroup} {group : KvCacheGroup}
    (member : group ∈ eagleGroups useEagle groups) : ∃ given ∈ groups, given.spec = group.spec := by
  unfold eagleGroups at member
  split at member
  · obtain ⟨given, inside, rfl⟩ := List.mem_map.mp member
    exact ⟨given, inside, rfl⟩
  · exact ⟨group, member, rfl⟩

def KvCacheConfig.Sized (config : KvCacheConfig) : Prop :=
  ∀ group ∈ config.kvCacheGroups, 0 < group.spec.blockSize ∧ group.spec.attention ≠ .slidingWindow 0

theorem checkGroups_spec {enableCaching : Bool} {hashBlockSize : Nat} {groups : List KvCacheGroup}
    (checked : checkGroups (coordinatorKind enableCaching groups) hashBlockSize groups = true)
    (caching : enableCaching = true) : ∀ group ∈ groups, group.spec.blockSize % hashBlockSize = 0 := by
  intro group member
  unfold coordinatorKind at checked
  rw [if_neg (by simp [caching])] at checked
  split at checked
  · have same := List.all_eq_true.mp checked group member
    rw [← of_decide_eq_true same, Nat.mod_self]
  · obtain ⟨divides, _⟩ := Bool.and_eq_true_iff.mp checked
    exact of_decide_eq_true (List.all_eq_true.mp divides group member)

theorem suits_coordinatorKind {enableCaching : Bool} {hashBlockSize : Nat} {groups : List KvCacheGroup}
    (checked : checkGroups (coordinatorKind enableCaching groups) hashBlockSize groups = true) :
    (coordinatorKind enableCaching groups).Suits groups hashBlockSize enableCaching := by
  unfold coordinatorKind at checked ⊢
  split
  next off => simpa [CoordinatorKind.Suits] using off
  next on =>
    rw [if_neg on] at checked
    split
    next one =>
      rw [if_pos one] at checked
      obtain ⟨group, rfl⟩ := List.length_eq_one_iff.mp one
      exact ⟨group, rfl, (of_decide_eq_true (List.all_eq_true.mp checked group List.mem_cons_self)).symm⟩
    next more =>
      rw [if_neg more] at checked
      exact ⟨by simpa using on, of_decide_eq_true (Bool.and_eq_true_iff.mp checked).2⟩

theorem tableCount_eq_zero_iff {managers : List SingleTypeKvCacheManager} {block : BlockRef} :
    tableCount managers block = 0 ↔ ∀ manager ∈ managers, ∀ requestId, block ∉ manager.blocksOf requestId := by
  constructor
  · intro nothing manager member requestId inside
    exact (tableCount_pos member inside).ne' nothing
  · intro absent
    refine List.sum_eq_zero fun n member => ?_
    obtain ⟨manager, inside, rfl⟩ := List.mem_map.mp member
    refine Dict.total_eq_zero fun requestId blocks present => List.count_eq_zero_of_not_mem fun here => ?_
    exact absent manager inside requestId (by rwa [blocksOf, present, Option.getD_some])

theorem KvCacheManager.consistent_new {config : KvCacheConfig} {args : CoordinatorArgs} {watermarkBlocks : Nat}
    {manager : KvCacheManager η} (sized : config.Sized)
    (created : KvCacheManager.new config args watermarkBlocks = .ok manager) :
    manager.Consistent evicts (allBlocks manager.coordinator.pool.numGpuBlocks).tail := by
  obtain ⟨coordinator, built, made⟩ := bind_eq_ok.mp created
  obtain rfl := Except.ok.inj made
  obtain ⟨⟨_, sizes⟩, built⟩ := assertThat_bind.mp built
  obtain ⟨pool, created_pool, built⟩ := bind_eq_ok.mp built
  obtain ⟨_, _, built⟩ := bind_eq_ok.mp built
  obtain ⟨checked, built⟩ := assertThat_bind.mp built
  obtain rfl := Except.ok.inj built
  have invariant : Invariant evicts pool (fun _ => 0) (allBlocks config.numBlocks).tail := invariant_new created_pool
  have reached : Reachable evicts true pool (fun _ => 0) [] := .new created_pool
  obtain ⟨size, caching, hashes⟩ : pool.numGpuBlocks = config.numBlocks ∧ pool.enableCaching = args.enableCaching ∧
      pool.hashBlockSize = args.hashBlockSize := by
    obtain ⟨_, created_pool⟩ := assertThat_bind.mp created_pool
    obtain ⟨_, _, created_pool⟩ := bind_eq_ok.mp created_pool
    obtain rfl := Except.ok.inj created_pool
    exact ⟨rfl, rfl, rfl⟩
  set groups := eagleGroups args.useEagle config.kvCacheGroups with groups_eq
  have made : ∀ one ∈ groups.mapIdx (SingleTypeKvCacheManager.new config args groups),
      ∃ (i : Nat) (group : KvCacheGroup), group ∈ groups ∧ one = SingleTypeKvCacheManager.new config args groups i group := by
    intro one member
    obtain ⟨i, inside, rfl⟩ := List.mem_mapIdx.mp member
    exact ⟨i, groups[i], List.getElem_mem inside, rfl⟩
  have empty : ∀ one ∈ groups.mapIdx (SingleTypeKvCacheManager.new config args groups), one.reqToBlocks = Dict.empty := by
    intro one member
    obtain ⟨_, _, _, rfl⟩ := made one member
    rfl
  refine ⟨⟨?_, fun one member requestId block here _ => ?_⟩, fun one member => ?_, ?_, ?_⟩
  · refine ⟨fun _ => 0, [], reached, ?_, fun block _ => (tableCount_eq_zero_iff.mpr fun one member requestId => ?_).symm⟩
    rwa [← size] at invariant
    rw [blocksOf, empty one member, Dict.get?_empty]
    exact List.not_mem_nil
  · have inside := here.mem
    rw [blocksOf, empty one member] at inside
    exact absurd inside List.not_mem_nil
  · obtain ⟨i, group, inside, rfl⟩ := made one member
    obtain ⟨given, given_mem, spec⟩ := mem_eagleGroups inside
    obtain ⟨positive, window⟩ := sized given given_mem
    rw [spec] at positive window
    refine ⟨positive, window, rfl, ?_, caching.symm, fun on => ?_⟩
    · have divides := of_decide_eq_true (List.all_eq_true.mp sizes given given_mem)
      rwa [spec] at divides
    · rw [hashes]
      exact checkGroups_spec checked (caching ▸ on) group inside
  · refine ⟨?_, ?_, ?_⟩
    · refine List.ext_getElem (by simp) fun i _ _ => ?_
      simp [SingleTypeKvCacheManager.new]
    · refine List.ext_getElem (by simp) fun i _ _ => ?_
      simp [SingleTypeKvCacheManager.new]
    · rw [hashes, caching]
      exact suits_coordinatorKind checked
  · exact caching.symm

/-! ### The runs -/

namespace KvCacheManager

/-- A manager that the scheduler has made and used. -/
inductive Reachable (evicts : Bool) : KvCacheManager η → Prop where
  | new {config : KvCacheConfig} {args : CoordinatorArgs} {watermarkBlocks : Nat} {manager : KvCacheManager η}
      (sized : config.Sized) (created : KvCacheManager.new config args watermarkBlocks = .ok manager) :
      Reachable evicts manager
  | allocateSlots {manager manager' : KvCacheManager η} {request : Request η} {slots : SlotRequest}
      {result : Option (List (List BlockRef))} (before : Reachable evicts manager) (asked : Asked manager request slots)
      (ran : manager.allocateSlots request slots = .ok (result, manager')) : Reachable evicts manager'
  | cacheBlocks {manager manager' : KvCacheManager η} {request : Request η} {numComputedTokens : Nat}
      (before : Reachable evicts manager) (computed : numComputedTokens ≤ request.numTokens)
      (hashed : manager.enableCaching = true →
        request.blockHashes.length = request.numTokens / manager.coordinator.pool.hashBlockSize)
      (covers : ∀ one ∈ manager.coordinator.managers,
        numComputedTokens / one.blockSize ≤ (one.blocksOf request.requestId).length)
      (ran : manager.cacheBlocks request numComputedTokens = .ok manager') : Reachable evicts manager'
  | free {manager manager' : KvCacheManager η} {requestId : String} (before : Reachable evicts manager)
      (ran : manager.free requestId = .ok manager') : Reachable evicts manager'
  | evictBlocks {manager manager' : KvCacheManager η} {blockIds : List Nat} (before : Reachable evicts manager)
      (allowed : evicts = true) (ran : manager.evictBlocks blockIds = .ok manager') : Reachable evicts manager'
  | resetPrefixCache {manager : KvCacheManager η} (before : Reachable evicts manager) :
      Reachable evicts manager.resetPrefixCache.2
  | takeEvents {manager : KvCacheManager η} (before : Reachable evicts manager) : Reachable evicts manager.takeEvents.2

variable {manager manager' : KvCacheManager η} {request : Request η} {free : List BlockRef}

/-- The blocks of the request are cached without fail, as far as it has them. -/
theorem cacheBlocks_spec (consistent : manager.Consistent evicts free) {numComputedTokens : Nat}
    (computed : numComputedTokens ≤ request.numTokens)
    (hashed : manager.enableCaching = true →
      request.blockHashes.length = request.numTokens / manager.coordinator.pool.hashBlockSize)
    (covers : ∀ one ∈ manager.coordinator.managers,
      numComputedTokens / one.blockSize ≤ (one.blocksOf request.requestId).length) :
    ∃ manager' free', manager.cacheBlocks request numComputedTokens = .ok manager' ∧ manager'.Consistent evicts free' := by
  unfold cacheBlocks
  split
  next on =>
    have caching := consistent.caching.symm.trans on
    obtain ⟨outs, pool', free', managers', ran, recached, ledger, caches⟩ := KvCacheCoordinator.cacheBlocks_spec _
      request numComputedTokens consistent.ledger caching fun one member => by
        have wired := consistent.wired one member
        rw [caching] at wired
        exact ⟨wired, covers one member, (Nat.div_le_div_right computed).trans
          (length_hashesOfSize (hashed on) (wired.hashed rfl)).ge⟩
    exact ⟨_, free', bind_eq_ok.mpr ⟨_, ran, rfl⟩,
      consistent.step recached (fun _ _ _ _ recached => recached.entry.config) ledger caches.toSamePool⟩
  · exact ⟨manager, free, rfl, consistent⟩

theorem free_spec (consistent : manager.Consistent evicts free) (requestId : String) :
    ∃ manager' free', manager.free requestId = .ok manager' ∧ manager'.Consistent evicts free' ∧
      ∀ one' ∈ manager'.coordinator.managers, ∃ one ∈ manager.coordinator.managers,
        KvCacheCoordinator.Forgotten requestId one one' := by
  obtain ⟨outs, pool', free', managers', ran, forgotten, ledger, index⟩ :=
    KvCacheCoordinator.free_spec consistent.ledger requestId
  refine ⟨_, free', bind_eq_ok.mpr ⟨_, ran, rfl⟩,
    consistent.step forgotten (fun _ _ _ _ forgotten => forgotten.entry.config) ledger (.of_sameIndex index),
    fun one' member => ?_⟩
  obtain ⟨_, _, one, inside, forgets⟩ := forgotten.mem member
  exact ⟨one, inside, forgets⟩

theorem reachable_consistent (reachable : Reachable evicts manager) : ∃ free, manager.Consistent evicts free := by
  induction reachable with
  | new sized created => exact ⟨_, consistent_new sized created⟩
  | allocateSlots _ asked ran ih =>
    obtain ⟨free, consistent⟩ := ih
    obtain ⟨_, _, free', ran', consistent', _⟩ := allocateSlots_spec consistent asked
    obtain ⟨_, rfl⟩ := Prod.mk.inj (Except.ok.inj (ran'.symm.trans ran))
    exact ⟨free', consistent'⟩
  | cacheBlocks _ computed hashed covers ran ih =>
    obtain ⟨free, consistent⟩ := ih
    obtain ⟨_, free', ran', consistent'⟩ := cacheBlocks_spec consistent computed hashed covers
    obtain rfl := Except.ok.inj (ran'.symm.trans ran)
    exact ⟨free', consistent'⟩
  | @free _ _ requestId _ ran ih =>
    obtain ⟨free, consistent⟩ := ih
    obtain ⟨_, free', ran', consistent', _⟩ := free_spec consistent requestId
    obtain rfl := Except.ok.inj (ran'.symm.trans ran)
    exact ⟨free', consistent'⟩
  | evictBlocks _ allowed ran ih =>
    obtain ⟨free, consistent⟩ := ih
    obtain ⟨pool', evicting, ran⟩ := bind_eq_ok.mp ran
    obtain rfl := Except.ok.inj ran
    subst allowed
    obtain ⟨held, same, keys⟩ := consistent.ledger.held.evictBlocks evicting
    exact ⟨free, consistent.fewer held same keys⟩
  | resetPrefixCache _ ih =>
    obtain ⟨free, consistent⟩ := ih
    obtain ⟨held, same, keys⟩ := consistent.ledger.held.resetPrefixCache
    exact ⟨free, consistent.fewer held same keys⟩
  | takeEvents _ ih =>
    obtain ⟨free, consistent⟩ := ih
    obtain ⟨held, index⟩ := consistent.ledger.held.takeEvents
    exact ⟨free, consistent.fewer held
      ⟨index.numGpuBlocks, index.enableCaching, index.hashBlockSize, index.nullBlock⟩ fun block => by
        rw [index.keysOf]
        exact List.Subset.refl _⟩

structure Accounted (manager : KvCacheManager η) : Prop where
  refCnt : ∀ block ≠ manager.coordinator.pool.nullBlock,
    (manager.coordinator.pool.blocks block).refCnt = tableCount manager.coordinator.managers block
  queue : ∃ free : List BlockRef, free.Nodup ∧ manager.coordinator.pool.getNumFreeBlocks = free.length ∧
    (∀ fuel, free.length < fuel →
      manager.coordinator.pool.freeBlockQueue.getAllFreeBlocks fuel = .ok (some free)) ∧
    ∀ block, block ∈ free ↔ block ∈ allBlocks manager.coordinator.pool.numGpuBlocks ∧
      block ≠ manager.coordinator.pool.nullBlock ∧
      ∀ one ∈ manager.coordinator.managers, ∀ requestId, block ∉ one.blocksOf requestId
  alone : ∀ one ∈ manager.coordinator.managers, ∀ (requestId : String) (i : Nat) (block : BlockRef),
    one.numCached requestId ≤ i → (one.blocksOf requestId)[i]? = some block →
      block ≠ manager.coordinator.pool.nullBlock → tableCount manager.coordinator.managers block = 1 ∧
        ∀ key, block ∉ manager.coordinator.pool.under key
  resets : manager.resetPrefixCache.1 = true ↔ ∀ one ∈ manager.coordinator.managers, ∀ requestId,
    ∀ block ∈ one.blocksOf requestId, block = manager.coordinator.pool.nullBlock

theorem Consistent.resets (consistent : manager.Consistent evicts free) :
    manager.resetPrefixCache.1 = true ↔ ∀ one ∈ manager.coordinator.managers, ∀ requestId,
      ∀ block ∈ one.blocksOf requestId, block = manager.coordinator.pool.nullBlock := by
  have held := consistent.ledger.held
  set pool := manager.coordinator.pool with pool_eq
  -- All blocks but the null one, of which the free ones are a part.
  have others : ((allBlocks pool.numGpuBlocks).erase pool.nullBlock).length + 1 = pool.numGpuBlocks := by
    rw [List.length_erase_of_mem held.null_mem, allBlocks, List.length_map, List.length_range]
    have some_block := List.length_pos_of_mem held.null_mem
    rw [allBlocks, List.length_map, List.length_range] at some_block
    omega
  have part : free ⊆ (allBlocks pool.numGpuBlocks).erase pool.nullBlock := fun block member => by
    obtain ⟨inside, different, _⟩ := held.mem_free.mp member
    exact (List.mem_erase_of_ne different).mpr inside
  have subperm := List.subperm_of_subset held.nodup part
  have reset_iff : manager.resetPrefixCache.1 = true ↔ free.length + 1 = pool.numGpuBlocks := by
    have numFree := held.numFree
    unfold resetPrefixCache BlockPool.resetPrefixCache
    dsimp only
    rw [← pool_eq, numFree]
    split
    next used => exact ⟨fun wrong => Bool.noConfusion wrong, fun all => absurd (by omega) used⟩
    next used => exact ⟨fun _ => by omega, fun _ => rfl⟩
  rw [reset_iff]
  constructor
  · intro all one member requestId block inside
    by_contra different
    have used := tableCount_pos member inside
    have pooled : block ∈ (allBlocks pool.numGpuBlocks).erase pool.nullBlock :=
      (List.mem_erase_of_ne different).mpr (held.mem_of_pos different used)
    have same := subperm.perm_of_length_le (by omega)
    exact used.ne' (held.mem_free.mp (same.mem_iff.mpr pooled)).2.2
  · intro nothing
    have whole : (allBlocks pool.numGpuBlocks).erase pool.nullBlock ⊆ free := fun block member => by
      have different := (List.Nodup.mem_erase_iff (nodup_allBlocks _)).mp member
      exact held.mem_free.mpr ⟨different.2, different.1, tableCount_eq_zero_iff.mpr fun one inside requestId here =>
        different.1 (nothing one inside requestId block here)⟩
    have back := (List.subperm_of_subset ((nodup_allBlocks _).erase _) whole).length_le
    have forth := subperm.length_le
    omega

/-- In no run do the tables and the pool disagree about who has a block. -/
theorem reachable_accounted (reachable : Reachable evicts manager) : manager.Accounted := by
  obtain ⟨free, consistent⟩ := reachable_consistent reachable
  have held := consistent.ledger.held
  refine ⟨fun block different => held.refCnt different, ⟨free, held.nodup, held.numFree, fun _ => held.listed, fun block => ?_⟩,
    fun one member requestId i block behind here different => ?_, consistent.resets⟩
  · rw [held.mem_free, tableCount_eq_zero_iff]
  · obtain ⟨once, unkeyed⟩ := consistent.ledger.isolated one member requestId block ⟨i, behind, here⟩ different
    refine ⟨once, fun key found => ?_⟩
    have keyed := (held.indexed.under_iff key block).mp found
    rw [unkeyed] at keyed
    exact List.not_mem_nil keyed

def sampleHasher : Hasher Nat := ⟨fun parent tokens _ => parent + tokens.length, 0, 2, Nat.two_pos⟩

def sampleRequest : Request Nat := Request.fromEngineCoreRequest sampleHasher (sampleArrival [5, 6, 7, 8, 9] none none)

def sampleSlots (numNewTokens : Nat) : SlotRequest := ⟨numNewTokens, 0, [], 0, 0, false, false, 0, false⟩

/-- A group with full attention, and one with a window of two tokens. -/
def sampleConfig : KvCacheConfig :=
  ⟨7, [⟨⟨.fullAttention, 2, ""⟩, false⟩, ⟨⟨.slidingWindow 2, 2, ""⟩, false⟩], false⟩

/-- Six blocks and the null one, of two tokens each. -/
def sampleManager : Except KvError (KvCacheManager Nat) :=
  KvCacheManager.new sampleConfig ⟨8, 8, false, true, false, 2, 2, none⟩ 0

def sampleBlocks : List (List BlockRef) :=
  [[.pooled 1, .pooled 2, .pooled 3], [.pooled 4, .pooled 5, .pooled 6]]

theorem sampleManager_spec : ∃ manager manager', sampleManager = .ok manager ∧ Reachable false manager ∧
    Asked manager sampleRequest (sampleSlots 5) ∧
    manager.allocateSlots sampleRequest (sampleSlots 5) = .ok (some sampleBlocks, manager') := by
  obtain ⟨manager, made⟩ : ∃ manager, sampleManager = .ok manager := ⟨_, rfl⟩
  have sized : sampleConfig.Sized := by
    intro group member
    rcases List.mem_cons.mp member with rfl | member
    · exact ⟨Nat.two_pos, by decide⟩
    · obtain rfl := List.mem_singleton.mp member
      exact ⟨Nat.two_pos, by decide⟩
  obtain ⟨manager', ran⟩ : ∃ manager',
      manager.allocateSlots sampleRequest (sampleSlots 5) = .ok (some sampleBlocks, manager') := by
    obtain rfl := Except.ok.inj made
    exact ⟨_, rfl⟩
  refine ⟨manager, manager', made, .new sized made, ?_, ran⟩
  obtain rfl := Except.ok.inj made
  exact ⟨by decide, by decide, by decide, fun _ => rfl, .inr ⟨by decide, rfl, rfl, fun _ _ => Nat.zero_le _⟩⟩

theorem reachable_accounted_sample : ∃ manager manager' : KvCacheManager Nat, sampleManager = .ok manager ∧
    manager.allocateSlots sampleRequest (sampleSlots 5) = .ok (some sampleBlocks, manager') ∧
    (manager'.coordinator.pool.blocks (.pooled 1)).refCnt = 1 ∧ manager'.Accounted := by
  obtain ⟨manager, manager', made, reachable, asked, ran⟩ := sampleManager_spec
  refine ⟨manager, manager', made, ran, ?_, reachable_accounted (reachable.allocateSlots asked ran)⟩
  obtain rfl := Except.ok.inj made
  obtain ⟨_, rfl⟩ := Prod.mk.inj (Except.ok.inj ran)
  rfl

/-- What the scheduler is given for a request: blocks for all tokens, the new ones last. -/
def Granted (manager : KvCacheManager η) (request : Request η) (slots : SlotRequest)
    (newBlocks : List (List BlockRef)) (manager' : KvCacheManager η) : Prop :=
  ∀ (k : Nat) (one : SingleTypeKvCacheManager), manager'.coordinator.managers[k]? = some one →
    manager.numTokensNeedSlot request slots ≤ (one.blocksOf request.requestId).length * one.blockSize ∧
      newBlocks.getD k [] <:+ one.blocksOf request.requestId

/-- A request that goes on is refused for no other reason than that the blocks it lacks are not there. -/
def Refused (manager : KvCacheManager η) (request : Request η) (slots : SlotRequest) (manager' : KvCacheManager η) : Prop :=
  Next manager request slots → slots.fullSequenceMustFit = false → manager.headroom request slots = 0 →
    slots.reservedBlocks = 0 → manager'.coordinator.pool.getNumFreeBlocks <
      lacking request.requestId (manager.numTokensNeedSlot request slots) manager'.coordinator.managers

def OthersKept (requestId : String) (manager manager' : KvCacheManager η) : Prop :=
  ∃ outs : List Unit, Related (fun _ _ => EntryStep requestId) outs manager.coordinator.managers
    manager'.coordinator.managers

omit [DecidableEq η] in
theorem Skipped.others {n : Nat} (skipped : Skipped request.requestId n manager manager') :
    OthersKept request.requestId manager manager' := by
  obtain ⟨outs, related⟩ := skipped.shrunk
  refine ⟨outs, related.length, related.length_outs, fun k one here => ?_⟩
  obtain ⟨out, one', gave, there, shrunk⟩ := related.each k one here
  exact ⟨out, one', gave, there, shrunk.entry⟩

variable {slots : SlotRequest}

omit [DecidableEq η] in
theorem Framed.numTokensNeedSlot (framed : Framed manager manager') :
    manager'.numTokensNeedSlot request slots = manager.numTokensNeedSlot request slots := by
  rw [framed]
  rfl

omit [DecidableEq η] in
theorem Framed.headroom (framed : Framed manager manager') :
    manager'.headroom request slots = manager.headroom request slots := by
  rw [framed]
  rfl

/-- In no run does the allocation fail half way: the scheduler is refused, and then for want of blocks, or given
all it asked for. Nobody else's blocks are touched. -/
theorem reachable_allocateSlots (reachable : Reachable evicts manager) (asked : Asked manager request slots) :
    ∃ result manager', manager.allocateSlots request slots = .ok (result, manager') ∧ Reachable evicts manager' ∧
      OthersKept request.requestId manager manager' ∧ match result with
        | some newBlocks => Granted manager request slots newBlocks manager'
        | none => Refused manager request slots manager' := by
  obtain ⟨free, consistent⟩ := reachable_consistent reachable
  obtain ⟨result, manager', free', ran, consistent', outcome⟩ := allocateSlots_spec consistent asked
  refine ⟨result, manager', ran, reachable.allocateSlots asked ran, ?_⟩
  rcases outcome with whole | ⟨skipped, counted, few⟩ | ⟨mid, skipped, asked', allots⟩
  · refine ⟨⟨manager.coordinator.managers.map fun _ => (), rfl, List.length_map _, fun k one here => ?_⟩,
      fun _ part => absurd (whole.symm.trans part) Bool.noConfusion⟩
    exact ⟨(), one, by rw [List.getElem?_map, here]; rfl, here, .refl _ _⟩
  · refine ⟨skipped.others, fun next _ no_headroom no_reserve => ?_⟩
    obtain ⟨outs, related⟩ := skipped.shrunk
    have next' : Next manager' request slots := by
      rw [skipped.framed]
      exact next.shrunk related
    rw [next'.counted consistent', Except.ok.injEq, skipped.framed.numTokensNeedSlot] at counted
    rw [Enough, skipped.framed.headroom, no_headroom, no_reserve, ← counted] at few
    omega
  · obtain ⟨outs, related⟩ := skipped.others
    refine ⟨⟨outs, allots.tables.length.trans related.length, related.length_outs, fun k one here => ?_⟩, fun k final here => ?_⟩
    · obtain ⟨out, one', gave, there, entry⟩ := related.each k one here
      obtain ⟨_, final, _, at_k, allotted⟩ := allots.tables.each k one' there
      exact ⟨out, final, gave, at_k, entry.trans allotted.entry⟩
    · obtain ⟨fresh, one', gave, there, allotted⟩ := allots.tables.back here
      have wired := consistent'.wired final (List.mem_of_getElem? here)
      refine ⟨?_, ?_⟩
      · rw [← skipped.framed.numTokensNeedSlot, allotted.entry.blockSize]
        refine (le_cdiv_mul ?_).trans (Nat.mul_le_mul_right _ allotted.long)
        rw [← allotted.entry.blockSize]
        exact wired.positive
      · obtain ⟨mid', _, table, _⟩ := allotted.front
        rw [List.getD_eq_getElem?_getD, gave, table]
        exact List.suffix_append _ _

theorem reachable_allocateSlots_sample : ∃ manager manager' : KvCacheManager Nat, sampleManager = .ok manager ∧
    manager.allocateSlots sampleRequest (sampleSlots 5) = .ok (some sampleBlocks, manager') ∧
    Granted manager sampleRequest (sampleSlots 5) sampleBlocks manager' := by
  obtain ⟨manager, manager', made, reachable, asked, given⟩ := sampleManager_spec
  obtain ⟨result, other, ran, _, _, granted⟩ := reachable_allocateSlots reachable asked
  obtain ⟨rfl, rfl⟩ := Prod.mk.inj (Except.ok.inj (ran.symm.trans given))
  exact ⟨manager, _, made, ran, granted⟩

end KvCacheManager

end DreamAifd.KvCache
