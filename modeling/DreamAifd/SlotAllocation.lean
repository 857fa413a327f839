import DreamAifd.CoordinatorSteps

/-! The manager's allocation of slots, which never fails half way, and what holds over whole runs of the manager. -/
namespace DreamAifd.KvCache

open BlockPool SingleTypeKvCacheManager

variable {η : Type} {evicts : Bool} {free : List BlockRef}

/-- The kind of a coordinator suits its groups. -/
def CoordinatorKind.Suits (kind : CoordinatorKind) (groups : List KvCacheGroup) (hashBlockSize : Nat)
    (enableCaching : Bool) : Prop :=
  match kind with
  | .noPrefixCache => enableCaching = false
  | .unitary => ∃ group, groups = [group] ∧ group.spec.blockSize = hashBlockSize
  | .hybrid => enableCaching = true ∧ 1 < (verifyAndSplitKvCacheGroups groups).length

/-- There is one manager for each group, by its id. -/
structure KvCacheCoordinator.Formed (coordinator : KvCacheCoordinator η) : Prop where
  specs : coordinator.managers.map (·.spec) = coordinator.groups.map (·.spec)
  ids : coordinator.managers.map (·.kvCacheGroupId) = List.range coordinator.groups.length
  suits : coordinator.kind.Suits coordinator.groups coordinator.pool.hashBlockSize coordinator.pool.enableCaching

variable [DecidableEq η]

/-- What holds of the manager between calls: the tables are the ledger of the pool, and what was set up agrees. -/
structure KvCacheManager.Consistent (evicts : Bool) (manager : KvCacheManager η) (free : List BlockRef) : Prop where
  ledger : Ledger evicts manager.coordinator.pool free manager.coordinator.managers
  wired : ∀ one ∈ manager.coordinator.managers, one.Wired manager.coordinator.schedulerBlockSize
    manager.coordinator.pool.hashBlockSize manager.coordinator.pool.enableCaching
  formed : manager.coordinator.Formed
  caching : manager.enableCaching = manager.coordinator.pool.enableCaching

section Related

omit [DecidableEq η]

variable {α : Type} {Rel : Nat → α → SingleTypeKvCacheManager → SingleTypeKvCacheManager → Prop} {outs : List α}
  {managers managers' : List SingleTypeKvCacheManager} {manager' : SingleTypeKvCacheManager}

theorem Related.back (related : Related Rel outs managers managers') {k : Nat} (here : managers'[k]? = some manager') :
    ∃ (out : α) (manager : SingleTypeKvCacheManager), outs[k]? = some out ∧ managers[k]? = some manager ∧
      Rel k out manager manager' := by
  have inside : k < managers.length := related.length ▸ (List.getElem?_eq_some_iff.mp here).1
  obtain ⟨out, other, gave, there, relates⟩ := related.each k _ (List.getElem?_eq_getElem inside)
  obtain rfl := Option.some.inj (here.symm.trans there)
  exact ⟨out, _, gave, List.getElem?_eq_getElem inside, relates⟩

theorem Related.mem (related : Related Rel outs managers managers') (member : manager' ∈ managers') :
    ∃ (k : Nat) (out : α) (manager : SingleTypeKvCacheManager), manager ∈ managers ∧ Rel k out manager manager' := by
  obtain ⟨k, here⟩ := List.getElem?_of_mem member
  obtain ⟨out, manager, _, there, relates⟩ := related.back here
  exact ⟨k, out, manager, List.mem_of_getElem? there, relates⟩

/-- What the managers are made with, as a whole. -/
theorem Related.configs (related : Related Rel outs managers managers')
    (config : ∀ k out one one', Rel k out one one' → one'.toManagerConfig = one.toManagerConfig) :
    managers'.map (·.toManagerConfig) = managers.map (·.toManagerConfig) := by
  refine List.ext_getElem? fun k => ?_
  rw [List.getElem?_map, List.getElem?_map]
  cases here : managers[k]? with
  | none =>
    have beyond := List.getElem?_eq_none_iff.mp here
    exact congrArg _ (List.getElem?_eq_none (related.length.le.trans beyond))
  | some one =>
    obtain ⟨out, one', _, there, relates⟩ := related.each k one here
    rw [there, Option.map_some, Option.map_some, config k out one one' relates]

end Related

/-- Steps that keep what the managers are made with keep the rest too. -/
theorem KvCacheManager.Consistent.step {α : Type} {manager : KvCacheManager η} {free' : List BlockRef} {pool' : BlockPool η}
    {Rel : Nat → α → SingleTypeKvCacheManager → SingleTypeKvCacheManager → Prop} {outs : List α}
    {managers' : List SingleTypeKvCacheManager} (consistent : manager.Consistent evicts free)
    (related : Related Rel outs manager.coordinator.managers managers')
    (config : ∀ k out one one', Rel k out one one' → one'.toManagerConfig = one.toManagerConfig)
    (ledger : Ledger evicts pool' free' managers') (same : SamePool manager.coordinator.pool pool') :
    KvCacheManager.Consistent evicts { manager with
      coordinator := { manager.coordinator with pool := pool', managers := managers' } } free' := by
  have configs := related.configs config
  refine ⟨ledger, fun one' member => ?_, ⟨?_, ?_, ?_⟩, consistent.caching.trans same.enableCaching.symm⟩
  · obtain ⟨k, out, one, here, relates⟩ := related.mem member
    have wired := consistent.wired one here
    rw [← config k out one one' relates, ← same.hashBlockSize, ← same.enableCaching] at wired
    exact wired
  · have specs := congrArg (List.map (·.spec)) configs
    rw [List.map_map, List.map_map] at specs
    exact specs.trans consistent.formed.specs
  · have ids := congrArg (List.map (·.kvCacheGroupId)) configs
    rw [List.map_map, List.map_map] at ids
    exact ids.trans consistent.formed.ids
  · rw [same.hashBlockSize, same.enableCaching]
    exact consistent.formed.suits

namespace KvCacheManager

variable {manager : KvCacheManager η} {request : Request η} {slots : SlotRequest}

/-- A request comes with hits, or with tokens from elsewhere, before it has any block. -/
structure First (manager : KvCacheManager η) (request : Request η) (slots : SlotRequest) : Prop where
  something : slots.newComputedBlocks.any (· ≠ []) = true ∨ 0 < slots.numExternalComputedTokens
  fresh : ∀ one ∈ manager.coordinator.managers,
    one.blocksOf request.requestId = [] ∧ one.numCachedBlock.get? request.requestId = none
  hits : ∀ (k : Nat) (one : SingleTypeKvCacheManager), manager.coordinator.managers[k]? = some one →
    FromCache manager.coordinator.pool (slots.newComputedBlocks.getD k []) ∧
      (one.enableCaching = true ∨ slots.newComputedBlocks.getD k [] = []) ∧
      (slots.newComputedBlocks.getD k []).length * one.blockSize ≤
        numLocalComputedTokens request slots + slots.numExternalComputedTokens

/-- A request goes on, with blocks for all it has computed. -/
structure Next (manager : KvCacheManager η) (request : Request η) (slots : SlotRequest) : Prop where
  noHits : ∀ blocks ∈ slots.newComputedBlocks, blocks = []
  noTokens : slots.numNewComputedTokens = 0
  noExternal : slots.numExternalComputedTokens = 0
  covers : ∀ one ∈ manager.coordinator.managers,
    request.numComputedTokens ≤ (one.blocksOf request.requestId).length * one.blockSize

/-- What the scheduler keeps to when it asks for slots. -/
structure Asked (manager : KvCacheManager η) (request : Request η) (slots : SlotRequest) : Prop where
  something : ¬ (slots.numNewTokens = 0 ∧ slots.numExternalComputedTokens = 0)
  within : numLocalComputedTokens request slots + slots.numExternalComputedTokens ≤ manager.maxModelLen
  tokens : request.numTokens ≤ manager.maxModelLen
  hashed : manager.enableCaching = true →
    request.blockHashes.length = request.numTokens / manager.coordinator.pool.hashBlockSize
  known : First manager request slots ∨ Next manager request slots

omit [DecidableEq η] in
theorem Next.hit_nil (next : Next manager request slots) (k : Nat) : slots.newComputedBlocks.getD k [] = [] := by
  rw [List.getD_eq_getElem?_getD]
  cases here : slots.newComputedBlocks[k]? with
  | none => rfl
  | some blocks => exact next.noHits blocks (List.mem_of_getElem? here)

omit [DecidableEq η] in
/-- The counts go through. -/
theorem Asked.exists_need (asked : Asked manager request slots) (numTokens totalComputedTokens : Nat)
    (applyAdmissionCap : Bool) : ∃ n, manager.coordinator.getNumBlocksToAllocate request.requestId numTokens
      slots.newComputedBlocks totalComputedTokens applyAdmissionCap = .ok n := by
  refine exists_sumLoop fun k one here => exists_getNumBlocksToAllocate fun known => ?_
  rcases asked.known with first | next
  · rw [(first.fresh one (List.mem_of_getElem? here)).2] at known
    exact nomatch known
  · exact next.hit_nil _

section Shrunk

variable {pool' : BlockPool η} {outs : List Unit} {managers' : List SingleTypeKvCacheManager} {n : Nat}

omit [DecidableEq η] in
theorem First.shrunk (first : First manager request slots) (index : SameIndex manager.coordinator.pool pool')
    (related : Related (fun _ _ one one' => Shrunk request.requestId (numSkipped one n) one one'
      manager.coordinator.pool.nullBlock) outs manager.coordinator.managers managers') :
    First { manager with coordinator := { manager.coordinator with pool := pool', managers := managers' } } request slots := by
  refine ⟨first.something, fun one' member => ?_, fun k one' here => ?_⟩
  · obtain ⟨_, _, one, there, shrunk⟩ := related.mem member
    obtain ⟨empty, unknown⟩ := first.fresh one there
    refine ⟨List.eq_nil_of_length_eq_zero (shrunk.length.trans (by rw [empty]; rfl)), ?_⟩
    rw [shrunk.numCachedBlock, unknown]
  · obtain ⟨_, one, _, there, shrunk⟩ := related.back here
    obtain ⟨found, caching, short⟩ := first.hits k one there
    refine ⟨found.of_kept index, ?_, ?_⟩
    · rwa [shrunk.entry.config]
    · rwa [shrunk.entry.blockSize]

omit [DecidableEq η] in
theorem Next.shrunk (next : Next manager request slots)
    (related : Related (fun _ _ one one' => Shrunk request.requestId (numSkipped one n) one one'
      manager.coordinator.pool.nullBlock) outs manager.coordinator.managers managers') :
    Next { manager with coordinator := { manager.coordinator with pool := pool', managers := managers' } } request slots := by
  refine ⟨next.noHits, next.noTokens, next.noExternal, fun one' member => ?_⟩
  obtain ⟨_, _, one, there, shrunk⟩ := related.mem member
  rw [shrunk.length, shrunk.entry.blockSize]
  exact next.covers one there

omit [DecidableEq η] in
/-- What is removed before the window leaves the request as it was asked for. -/
theorem Asked.shrunk (asked : Asked manager request slots) (index : SameIndex manager.coordinator.pool pool')
    (related : Related (fun _ _ one one' => Shrunk request.requestId (numSkipped one n) one one'
      manager.coordinator.pool.nullBlock) outs manager.coordinator.managers managers') :
    Asked { manager with coordinator := { manager.coordinator with pool := pool', managers := managers' } } request slots :=
  ⟨asked.something, asked.within, asked.tokens, fun caching => index.hashBlockSize ▸ asked.hashed caching,
    asked.known.imp (·.shrunk index related) (·.shrunk related)⟩

end Shrunk

omit [DecidableEq η] in
theorem Asked.numTokensNeedSlot (asked : Asked manager request slots) :
    numLocalComputedTokens request slots + slots.numExternalComputedTokens ≤ manager.numTokensNeedSlot request slots := by
  have within := asked.within
  unfold KvCacheManager.numTokensNeedSlot KvCacheManager.totalComputedTokens
  omega

def Enough (manager : KvCacheManager η) (request : Request η) (slots : SlotRequest) (n : Nat) : Prop :=
  ((n + manager.headroom request slots : Nat) : Int) ≤
    manager.coordinator.pool.getNumFreeBlocks - slots.reservedBlocks

omit [DecidableEq η] in
/-- The slots fit where there are as many blocks as were counted. -/
theorem slotsFit_spec {n : Nat}
    (counted : manager.coordinator.getNumBlocksToAllocate request.requestId (manager.numTokensNeedSlot request slots)
      slots.newComputedBlocks (numLocalComputedTokens request slots + slots.numExternalComputedTokens) false = .ok n) :
    ∃ fits : Bool, manager.slotsFit request slots = .ok fits ∧ (fits = true ↔ Enough manager request slots n) :=
  ⟨_, bind_eq_ok.mpr ⟨n, counted, rfl⟩, decide_eq_true_iff⟩

theorem First.counted (consistent : manager.Consistent evicts free) (first : First manager request slots) (numTokens : Nat) :
    manager.coordinator.getNumBlocksToAllocate request.requestId numTokens slots.newComputedBlocks
      (numLocalComputedTokens request slots + slots.numExternalComputedTokens) false =
      .ok (sumFrom (needOf slots.newComputedBlocks numTokens
        (numLocalComputedTokens request slots + slots.numExternalComputedTokens) free) 0 manager.coordinator.managers) := by
  refine sumLoop_eq fun k one here => ?_
  obtain ⟨empty, unknown⟩ := first.fresh one (List.mem_of_getElem? here)
  have found : FromCache manager.coordinator.pool ((slots.newComputedBlocks.getD k []).drop
      (numSkipped one (numLocalComputedTokens request slots + slots.numExternalComputedTokens))) := fun block member =>
    (first.hits k one here).1 block (List.mem_of_mem_drop member)
  rw [getNumBlocksToAllocate_first unknown empty, Nat.zero_add, getNumEvictableBlocks_eq consistent.ledger.held found]
  rfl

theorem Next.counted (consistent : manager.Consistent evicts free) (next : Next manager request slots) (numTokens : Nat) :
    manager.coordinator.getNumBlocksToAllocate request.requestId numTokens slots.newComputedBlocks
      (numLocalComputedTokens request slots + slots.numExternalComputedTokens) false =
      .ok (lacking request.requestId numTokens manager.coordinator.managers) := by
  rw [← sumFrom_eq_lacking _ _ 0]
  refine sumLoop_eq fun k one here => ?_
  have member := List.mem_of_getElem? here
  rw [next.hit_nil, numLocalComputedTokens, next.noTokens, next.noExternal]
  exact getNumBlocksToAllocate_next (consistent.wired one member).window (next.covers one member)

/-- A manager before the new blocks: what the request had, without what lies before the window; or its hits, with
blocks for the tokens from elsewhere. -/
inductive Prepared (manager : KvCacheManager η) (request : Request η) (slots : SlotRequest) (k : Nat)
    (one mid : SingleTypeKvCacheManager) : Prop where
  | next (next : Next manager request slots) (same : mid = one)
  | first (first : First manager request slots) (adopted : SingleTypeKvCacheManager) (fresh : List BlockRef)
      (adopts : Adopted request.requestId slots.newComputedBlocks
        (numLocalComputedTokens request slots + slots.numExternalComputedTokens) manager.coordinator.pool.nullBlock
        k () one adopted)
      (grown : Grown request.requestId fresh adopted mid)
      (external : slots.numExternalComputedTokens = 0 → fresh = [])

omit [DecidableEq η] in
theorem Prepared.entry {k : Nat} {one mid : SingleTypeKvCacheManager} (prepared : Prepared manager request slots k one mid) :
    EntryStep request.requestId one mid := by
  rcases prepared with ⟨_, rfl⟩ | ⟨_, adopted, fresh, adopts, grown, _⟩
  · exact .refl _ _
  · exact adopts.entry.trans grown.entry

/-- What is computed already gets its place, and what the request lacks then is free. -/
theorem addComputed_spec (consistent : manager.Consistent evicts free) (asked : Asked manager request slots)
    {n : Nat} (counted : manager.coordinator.getNumBlocksToAllocate request.requestId
      (manager.numTokensNeedSlot request slots) slots.newComputedBlocks
      (numLocalComputedTokens request slots + slots.numExternalComputedTokens) false = .ok n) (enough : n ≤ free.length) :
    ∃ pool' free' managers', manager.addComputed request slots =
        .ok { manager.coordinator with pool := pool', managers := managers' } ∧
      (∃ outs : List Unit, Related (fun k _ => Prepared manager request slots k) outs manager.coordinator.managers managers') ∧
      Growing evicts request.requestId (manager.numTokensNeedSlot request slots) manager.coordinator.pool pool' free'
        managers' := by
  rcases asked.known with first | next
  · rw [first.counted consistent, Except.ok.injEq] at counted
    rw [← counted] at enough
    obtain ⟨outs, pool₁, free₁, managers₁, adopting, adopted, ledger₁, index, enough₁⟩ := adopt_spec consistent.ledger
      (fun one member => (first.fresh one member).1)
      (fun k one here => ⟨(first.hits k one here).1, (first.hits k one here).2.1⟩) enough
    have unknown : ¬ (manager.coordinator.managers.any fun one => (one.numCachedBlock.get? request.requestId).isSome) := by
      rw [List.any_eq_true]
      rintro ⟨one, member, known⟩
      rw [(first.fresh one member).2] at known
      exact nomatch known
    have asks : manager.addComputed request slots = manager.coordinator.allocateNewComputedBlocks request.requestId
        slots.newComputedBlocks (numLocalComputedTokens request slots) slots.numExternalComputedTokens :=
      if_pos first.something
    rw [asks, KvCacheCoordinator.allocateNewComputedBlocks, if_neg unknown]
    by_cases none_external : slots.numExternalComputedTokens = 0
    · refine ⟨pool₁, free₁, managers₁, bind_eq_ok.mpr ⟨_, adopting, if_pos none_external⟩, ⟨outs, adopted.length,
        adopted.length_outs, fun k one here => ?_⟩, ledger₁, .of_sameIndex index, enough₁⟩
      obtain ⟨out, one', gave, there, adopts⟩ := adopted.each k one here
      exact ⟨out, one', gave, there, .first first one' [] adopts (.refl _ _) fun _ => rfl⟩
    · let coordinator₁ : KvCacheCoordinator η := { manager.coordinator with pool := pool₁, managers := managers₁ }
      obtain ⟨outs₂, pool₂, free₂, managers₂, growing, grown, ledger₂, dropped, enough₂⟩ :=
        external_spec coordinator₁ ledger₁ asked.numTokensNeedSlot enough₁
      refine ⟨pool₂, free₂, managers₂, bind_eq_ok.mpr ⟨_, adopting, (if_neg none_external).trans
        (bind_eq_ok.mpr ⟨_, growing, rfl⟩)⟩, ⟨outs, grown.length.trans adopted.length, adopted.length_outs,
        fun k one here => ?_⟩, ledger₂, (Dropped.of_sameIndex index).trans dropped, enough₂⟩
      obtain ⟨out, one₁, gave, there, adopts⟩ := adopted.each k one here
      obtain ⟨_, one₂, _, there₂, fresh, grows⟩ := grown.each k one₁ there
      exact ⟨out, one₂, gave, there₂, .first first one₁ fresh adopts grows fun zero => absurd zero none_external⟩
  · rw [next.counted consistent, Except.ok.injEq] at counted
    rw [← counted] at enough
    have quiet : ¬ (slots.newComputedBlocks.any (· ≠ []) = true ∨ 0 < slots.numExternalComputedTokens) := by
      rw [next.noExternal, List.any_eq_true]
      rintro (⟨blocks, member, some⟩ | positive)
      · exact absurd (next.noHits blocks member) (by simpa using some)
      · exact absurd positive (lt_irrefl 0)
    refine ⟨manager.coordinator.pool, free, manager.coordinator.managers, if_neg quiet,
      ⟨manager.coordinator.managers.map fun _ => (), rfl, by simp, fun k one here => ?_⟩, consistent.ledger, .refl _, enough⟩
    exact ⟨(), one, by rw [List.getElem?_map, here]; rfl, here, .next next rfl⟩

/-- Only the pool and the tables differ. -/
def Framed (manager manager' : KvCacheManager η) : Prop :=
  manager' = { manager with coordinator := { manager.coordinator with
    pool := manager'.coordinator.pool, managers := manager'.coordinator.managers } }

structure Skipped (requestId : String) (numTokens : Nat) (manager manager' : KvCacheManager η) : Prop where
  framed : Framed manager manager'
  index : SameIndex manager.coordinator.pool manager'.coordinator.pool
  shrunk : ∃ outs : List Unit, Related (fun _ _ one one' => Shrunk requestId (numSkipped one numTokens) one one'
    manager.coordinator.pool.nullBlock) outs manager.coordinator.managers manager'.coordinator.managers

def numTokensCached (manager : KvCacheManager η) (request : Request η) (slots : SlotRequest) : Nat :=
  if ¬ manager.enableCaching ∨ slots.delayCacheBlocks then 0
  else min (manager.totalComputedTokens request slots + slots.numNewTokens) request.numTokens

structure Allotted (manager : KvCacheManager η) (request : Request η) (slots : SlotRequest) (k : Nat)
    (newBlocks : List BlockRef) (one final : SingleTypeKvCacheManager) : Prop where
  entry : EntryStep request.requestId one final
  long : cdiv (manager.numTokensNeedSlot request slots) one.blockSize ≤ (final.blocksOf request.requestId).length
  front : ∃ mid, Prepared manager request slots k one mid ∧
    final.blocksOf request.requestId = mid.blocksOf request.requestId ++ newBlocks ∧
    final.numCached request.requestId = max (mid.numCached request.requestId)
      (manager.coordinator.numBlocksToCache (manager.numTokensCached request slots) one)

structure Allots (manager : KvCacheManager η) (request : Request η) (slots : SlotRequest)
    (newBlocks : List (List BlockRef)) (manager' : KvCacheManager η) : Prop where
  framed : Framed manager manager'
  same : SamePool manager.coordinator.pool manager'.coordinator.pool
  tables : Related (Allotted manager request slots) newBlocks manager.coordinator.managers manager'.coordinator.managers
  under : ∀ key block, block ∈ manager'.coordinator.pool.under key → block ∈ manager.coordinator.pool.under key ∨
    block ≠ manager.coordinator.pool.nullBlock ∧ ∃ final ∈ manager'.coordinator.managers,
      ∃ j < manager.coordinator.numBlocksToCache (manager.numTokensCached request slots) final,
        (final.blocksOf request.requestId)[j]? = some block ∧
        (hashesOfSize request.blockHashes manager.coordinator.pool.hashBlockSize final.blockSize)[j]? = some key.1 ∧
        key.2 = final.kvCacheGroupId

omit [DecidableEq η] in
theorem numBlocksToCache_zero (coordinator : KvCacheCoordinator η) (one : SingleTypeKvCacheManager) :
    coordinator.numBlocksToCache 0 one = 0 := by
  rw [KvCacheCoordinator.numBlocksToCache, Nat.le_zero.mp (coordinator.numTokensToCache_le one 0), Nat.zero_div]

omit [DecidableEq η] in
theorem numBlocksToCache_congr (coordinator : KvCacheCoordinator η) (n : Nat) {one one' : SingleTypeKvCacheManager}
    (config : one'.toManagerConfig = one.toManagerConfig) :
    coordinator.numBlocksToCache n one' = coordinator.numBlocksToCache n one := by
  rw [KvCacheCoordinator.numBlocksToCache, KvCacheCoordinator.numBlocksToCache, KvCacheCoordinator.numTokensToCache,
    KvCacheCoordinator.numTokensToCache, SingleTypeKvCacheManager.blockSize, SingleTypeKvCacheManager.blockSize, config]

/-- Where there are blocks enough, the allocation goes through. -/
theorem allocate_spec (consistent : manager.Consistent evicts free) (asked : Asked manager request slots)
    {n : Nat} (counted : manager.coordinator.getNumBlocksToAllocate request.requestId
      (manager.numTokensNeedSlot request slots) slots.newComputedBlocks
      (numLocalComputedTokens request slots + slots.numExternalComputedTokens) false = .ok n) (enough : n ≤ free.length) :
    ∃ newBlocks manager' free', manager.allocate request slots = .ok (some newBlocks, manager') ∧
      manager'.Consistent evicts free' ∧ Allots manager request slots newBlocks manager' := by
  obtain ⟨pool₂, free₂, managers₂, adding, ⟨units, prepared⟩, ledger₂, dropped₂, enough₂⟩ :=
    addComputed_spec consistent asked counted enough
  have consistent₂ := consistent.step prepared (fun _ _ _ _ prepared => prepared.entry.config) ledger₂ dropped₂.toSamePool
  set coordinator₂ : KvCacheCoordinator η := { manager.coordinator with pool := pool₂, managers := managers₂ }
  obtain ⟨newBlocks, pool₃, free₃, managers₃, growing, grown, ledger₃, dropped₃, -⟩ :=
    allocateNewBlocks_spec coordinator₂ ledger₂ enough₂
  have consistent₃ := consistent₂.step grown (fun _ _ _ _ grown => grown.1.entry.config) ledger₃ dropped₃.toSamePool
  set coordinator₃ : KvCacheCoordinator η := { manager.coordinator with pool := pool₃, managers := managers₃ }
    with coordinator₃_eq
  have dropped := dropped₂.trans dropped₃
  by_cases uncached : ¬ manager.enableCaching ∨ slots.delayCacheBlocks
  · refine ⟨newBlocks, { manager with coordinator := coordinator₃ }, free₃, bind_eq_ok.mpr ⟨_, adding, bind_eq_ok.mpr
      ⟨_, growing, bind_eq_ok.mpr ⟨coordinator₃, if_pos uncached, rfl⟩⟩⟩, consistent₃, rfl, dropped.toSamePool,
      ⟨grown.length.trans prepared.length, grown.length_outs.trans prepared.length, fun k one here => ?_⟩, fun key block there =>
        .inl (dropped.under key block there)⟩
    obtain ⟨_, mid, _, there, prepares⟩ := prepared.each k one here
    obtain ⟨fresh, final, gave, at_k, grows, long⟩ := grown.each k mid there
    refine ⟨fresh, final, gave, at_k, prepares.entry.trans grows.entry, ?_, mid, prepares, grows.table, ?_⟩
    · rwa [← prepares.entry.blockSize]
    · rw [numTokensCached, if_pos uncached, numBlocksToCache_zero, Nat.max_zero, SingleTypeKvCacheManager.numCached,
        SingleTypeKvCacheManager.numCached, grows.cached]
  · have caching : coordinator₃.pool.enableCaching = true := by
      rw [← consistent₃.caching]
      simpa using (not_or.mp uncached).1
    set tokens := min (manager.totalComputedTokens request slots + slots.numNewTokens) request.numTokens with tokens_eq
    have tokens_le : tokens ≤ manager.numTokensNeedSlot request slots := by
      have bound := asked.tokens
      unfold KvCacheManager.numTokensNeedSlot
      omega
    obtain ⟨units', pool₄, free₄, managers₄, caching₄, recached, ledger₄, caches⟩ :=
      KvCacheCoordinator.cacheBlocks_spec coordinator₃ request tokens ledger₃ caching fun one member => by
          obtain ⟨_, _, mid, _, grows, long⟩ := grown.mem member
          have wired := consistent₃.wired one member
          rw [caching] at wired
          refine ⟨wired, ?_, ?_⟩
          · rw [← grows.entry.blockSize] at long
            exact (Nat.div_le_div_right tokens_le).trans ((div_le_cdiv _ _).trans long)
          · have full : request.blockHashes.length = request.numTokens / pool₃.hashBlockSize := by
              rw [dropped.hashBlockSize]
              exact asked.hashed (by simpa using (not_or.mp uncached).1)
            exact (Nat.div_le_div_right (min_le_right ..)).trans (length_hashesOfSize full (wired.hashed rfl)).ge
    have consistent₄ := consistent₃.step recached (fun _ _ _ _ recached => recached.entry.config) ledger₄ caches.toSamePool
    refine ⟨newBlocks, { manager with coordinator := { manager.coordinator with pool := pool₄, managers := managers₄ } },
      free₄, bind_eq_ok.mpr ⟨_, adding, bind_eq_ok.mpr ⟨_, growing, bind_eq_ok.mpr
        ⟨_, (if_neg uncached).trans caching₄, rfl⟩⟩⟩, consistent₄, rfl, dropped.toSamePool.trans caches.toSamePool,
      ⟨recached.length.trans (grown.length.trans prepared.length), grown.length_outs.trans prepared.length,
        fun k one here => ?_⟩, fun key block there => ?_⟩
    · obtain ⟨_, mid, _, there, prepares⟩ := prepared.each k one here
      obtain ⟨fresh, full, gave, at_k, grows, long⟩ := grown.each k mid there
      obtain ⟨_, final, _, at_k', recaches⟩ := recached.each k full at_k
      have table : final.blocksOf request.requestId = full.blocksOf request.requestId := by
        rw [SingleTypeKvCacheManager.blocksOf, recaches.tables, SingleTypeKvCacheManager.blocksOf]
      have entry := prepares.entry.trans grows.entry
      refine ⟨fresh, final, gave, at_k', entry.trans recaches.entry, ?_, mid, prepares, table.trans grows.table, ?_⟩
      · rw [table, ← prepares.entry.blockSize]
        exact long
      · rw [recaches.cached, numTokensCached, if_neg uncached, numBlocksToCache_congr _ _ entry.config,
          SingleTypeKvCacheManager.numCached, SingleTypeKvCacheManager.numCached, grows.cached]
        rfl
    · rcases caches.under key block there with before | ⟨different, full, member, j, _, below, at_j, hash, group⟩
      · exact .inl (dropped.under key block before)
      · obtain ⟨k, at_k⟩ := List.getElem?_of_mem member
        obtain ⟨_, final, _, at_k', recaches⟩ := recached.each k full at_k
        refine .inr ⟨dropped.nullBlock ▸ different, final, List.mem_of_getElem? at_k', j, ?_, ?_, ?_, ?_⟩
        · rw [numTokensCached, if_neg uncached, numBlocksToCache_congr _ _ recaches.entry.config]
          exact below
        · rw [SingleTypeKvCacheManager.blocksOf, recaches.tables]
          exact at_j
        · rw [recaches.entry.blockSize, ← dropped.hashBlockSize]
          exact hash
        · rw [group, recaches.entry.config]

/-- What `allocate_slots` can come to. -/
inductive Outcome (manager : KvCacheManager η) (request : Request η) (slots : SlotRequest) :
    Option (List (List BlockRef)) → KvCacheManager η → Prop
  | refused (whole : slots.fullSequenceMustFit = true) : Outcome manager request slots none manager
  | short {manager' : KvCacheManager η} {n : Nat} (skipped : Skipped request.requestId
        (manager.totalComputedTokens request slots - request.numInFlightTokens) manager manager')
      (counted : manager'.coordinator.getNumBlocksToAllocate request.requestId
        (manager'.numTokensNeedSlot request slots) slots.newComputedBlocks
        (numLocalComputedTokens request slots + slots.numExternalComputedTokens) false = .ok n)
      (few : ¬ Enough manager' request slots n) : Outcome manager request slots none manager'
  | allotted {newBlocks : List (List BlockRef)} (mid : KvCacheManager η) {manager' : KvCacheManager η}
      (skipped : Skipped request.requestId
        (manager.totalComputedTokens request slots - request.numInFlightTokens) manager mid)
      (asked : Asked mid request slots) (allots : Allots mid request slots newBlocks manager') :
      Outcome manager request slots (some newBlocks) manager'

theorem allocateSlots_spec (consistent : manager.Consistent evicts free) (asked : Asked manager request slots) :
    ∃ result manager' free', manager.allocateSlots request slots = .ok (result, manager') ∧
      manager'.Consistent evicts free' ∧ Outcome manager request slots result manager' := by
  unfold allocateSlots
  rw [if_neg asked.something]
  obtain ⟨fits, checked, whole⟩ : ∃ fits, manager.sequenceFits request slots = .ok fits ∧
      (fits = false → slots.fullSequenceMustFit = true) := by
    unfold sequenceFits
    split
    next whole =>
      obtain ⟨n, counted⟩ := asked.exists_need (min request.numTokens manager.maxModelLen)
        (manager.totalComputedTokens request slots) true
      exact ⟨_, bind_eq_ok.mpr ⟨n, counted, rfl⟩, fun _ => whole⟩
    next => exact ⟨true, rfl, fun never => Bool.noConfusion never⟩
  cases fits with
  | false => exact ⟨none, manager, free, bind_eq_ok.mpr ⟨false, checked, rfl⟩, consistent, .refused (whole rfl)⟩
  | true =>
    obtain ⟨outs, pool₁, free₁, managers₁, removing, shrunk, ledger₁, index⟩ :=
      KvCacheCoordinator.removeSkippedBlocks_spec consistent.ledger request.requestId
        (manager.totalComputedTokens request slots - request.numInFlightTokens)
    have consistent₁ := consistent.step shrunk (fun _ _ _ _ shrunk => shrunk.entry.config) ledger₁ (.of_sameIndex index)
    have asked₁ := asked.shrunk index shrunk
    set mid : KvCacheManager η := { manager with
      coordinator := { manager.coordinator with pool := pool₁, managers := managers₁ } } with mid_eq
    have skipped : Skipped request.requestId
      (manager.totalComputedTokens request slots - request.numInFlightTokens) manager mid := ⟨rfl, index, outs, shrunk⟩
    have removes : manager.removeSkippedBlocks request slots = .ok mid := bind_eq_ok.mpr ⟨_, removing, rfl⟩
    obtain ⟨n, counted⟩ := asked₁.exists_need (mid.numTokensNeedSlot request slots)
      (numLocalComputedTokens request slots + slots.numExternalComputedTokens) false
    obtain ⟨fits, checked₁, fits_iff⟩ := slotsFit_spec counted
    cases fits with
    | false =>
      refine ⟨none, mid, free₁, bind_eq_ok.mpr ⟨true, checked, bind_eq_ok.mpr ⟨mid, removes, bind_eq_ok.mpr
        ⟨false, checked₁, rfl⟩⟩⟩, consistent₁, .short skipped counted fun enough => ?_⟩
      exact Bool.noConfusion (fits_iff.mpr enough)
    | true =>
      have enough := fits_iff.mp rfl
      rw [Enough, ledger₁.held.numFree] at enough
      obtain ⟨newBlocks, manager', free', allocates, consistent', allots⟩ :=
        allocate_spec consistent₁ asked₁ counted (by omega)
      exact ⟨some newBlocks, manager', free', bind_eq_ok.mpr ⟨true, checked, bind_eq_ok.mpr ⟨mid, removes, bind_eq_ok.mpr
        ⟨true, checked₁, allocates⟩⟩⟩, consistent', .allotted mid skipped asked₁ allots⟩

end KvCacheManager

end DreamAifd.KvCache
