import DreamAifd.HybridHits

/-! The manager of the KV cache: which blocks each request has in each cache group, and what of them is given
to the pool to be found again. -/
namespace DreamAifd.KvCache

variable {η : Type}

def cdiv (a b : Nat) : Nat := (a + (b - 1)) / b

structure ManagerConfig where
  spec : KvCacheSpec
  kvCacheGroupId : Nat
  schedulerBlockSize : Nat
  enableCaching : Bool
  maxAdmissionBlocksPerRequest : Option Nat
  recordNewBlockIds : Bool
  useEagle : Bool
  deriving DecidableEq, Repr

structure SingleTypeKvCacheManager extends ManagerConfig where
  reqToBlocks : Dict String (List BlockRef)
  numCachedBlock : Dict String Nat
  newBlockIds : List BlockRef

/-- The tokens before the window of the next one. -/
def AttentionType.getNumSkippedTokens (attention : AttentionType) (numComputedTokens : Nat) : Nat :=
  match attention with
  | .fullAttention => 0
  | .slidingWindow window => numComputedTokens + 1 - window

/-- At most so many blocks are in use by a request with a window at once. -/
def AttentionType.maxAdmissionBlocksPerRequest (attention : AttentionType)
    (blockSize maxInFlightTokens maxModelLen : Nat) : Option Nat :=
  match attention with
  | .fullAttention => none
  | .slidingWindow window => some (cdiv (min (window - 1 + maxInFlightTokens) maxModelLen) blockSize + 1)

namespace SlidingWindowManager

/-- Whether a hit that ends at a boundary of the segments can need the block. -/
def inSegmentTail (need shift perSegment i : Nat) : Bool :=
  shift ≤ i ∧ perSegment - need ≤ (i - shift) % perSegment

/-- The blocks a hit can need; none are told apart where every block can be needed. -/
def reachableBlockMask (startBlock endBlock alignmentTokens slidingWindow blockSize : Nat) (useEagle : Bool)
    (retentionInterval : Option Nat) (numPromptTokens : Nat) : Except KvError (Option (List Bool)) :=
  if alignmentTokens % blockSize ≠ 0 then .error .assertionError
  else
    let need := contiguousBlocksForHit slidingWindow blockSize useEagle
    let shift := if useEagle then 1 else 0
    let segmentTokens := match retentionInterval with
      | none => some alignmentTokens
      | some 0 => none
      | some interval => some interval
    if segmentTokens.any fun tokens => tokens / blockSize ≤ need then .ok none
    else
      let latest := (numPromptTokens - 1) / alignmentTokens * alignmentTokens
      let promptEndBlock := latest / blockSize + shift
      .ok (some ((List.range (endBlock - startBlock)).map fun k =>
        let i := startBlock + k
        segmentTokens.any (fun tokens => inSegmentTail need shift (tokens / blockSize) i) ||
          (retentionInterval.isSome && decide (promptEndBlock - need ≤ i ∧ i < promptEndBlock))))

end SlidingWindowManager

namespace SingleTypeKvCacheManager

variable (manager : SingleTypeKvCacheManager)

def blockSize : Nat := manager.spec.blockSize

/-- The blocks of a request; it has none before the first are allocated. -/
def blocksOf (requestId : String) : List BlockRef := (manager.reqToBlocks.get? requestId).getD []

def setBlocks (requestId : String) (blocks : List BlockRef) : SingleTypeKvCacheManager :=
  { manager with reqToBlocks := manager.reqToBlocks.set requestId blocks }

def getNumSkippedTokens (numComputedTokens : Nat) : Nat := manager.spec.attention.getNumSkippedTokens numComputedTokens

def getNumEvictableBlocks (pool : BlockPool η) (blocks : List BlockRef) : Nat :=
  blocks.countP fun block => (pool.blocks block).refCnt = 0 ∧ ¬ (pool.blocks block).isNull

def getNumBlocksToAllocate (pool : BlockPool η) (requestId : String) (numTokens : Nat)
    (newComputedBlocks : List BlockRef) (totalComputedTokens : Nat) (applyAdmissionCap : Bool) : Except KvError Nat :=
  let numRequiredBlocks := cdiv numTokens manager.blockSize
  let numRequiredBlocks := match manager.maxAdmissionBlocksPerRequest with
    | some cap => if applyAdmissionCap then min numRequiredBlocks cap else numRequiredBlocks
    | none => numRequiredBlocks
  let numReqBlocks := (manager.blocksOf requestId).length
  if (manager.numCachedBlock.get? requestId).isSome then
    if newComputedBlocks = [] then .ok (numRequiredBlocks - numReqBlocks) else .error .assertionError
  else
    let numSkippedBlocks := manager.getNumSkippedTokens totalComputedTokens / manager.blockSize
    let numLocalComputedBlocks := newComputedBlocks.length + numReqBlocks
    let numNewBlocks := numRequiredBlocks - max numSkippedBlocks numLocalComputedBlocks
    .ok (numNewBlocks + getNumEvictableBlocks pool (newComputedBlocks.drop (numSkippedBlocks - numReqBlocks)))

/-- The blocks found in the cache become the first of the request, null ones for those before the window. -/
def addLocalComputedBlocks (pool : BlockPool η) (requestId : String) (newComputedBlocks : List BlockRef)
    (numLocalComputedTokens numExternalComputedTokens : Nat) :
    Except KvError (BlockPool η × SingleTypeKvCacheManager) := do
  assertThat (manager.blocksOf requestId = [])
  let numSkippedBlocks :=
    manager.getNumSkippedTokens (numLocalComputedTokens + numExternalComputedTokens) / manager.blockSize
  let newComputedBlocks := newComputedBlocks.drop numSkippedBlocks
  assertThat (manager.enableCaching ∨ newComputedBlocks = [])
  let pool ← pool.touch (if manager.enableCaching then newComputedBlocks else [])
  let reqBlocks := List.replicate numSkippedBlocks pool.nullBlock ++ newComputedBlocks
  return (pool, { manager.setBlocks requestId reqBlocks with
    numCachedBlock := manager.numCachedBlock.set requestId reqBlocks.length })

def extendBlocks [DecidableEq η] (pool : BlockPool η) (requestId : String) (n : Nat) :
    Except KvError (List BlockRef × BlockPool η × SingleTypeKvCacheManager) := do
  let (newBlocks, pool) ← pool.getNewBlocks n
  let newBlockIds := if manager.recordNewBlockIds then manager.newBlockIds ++ newBlocks else manager.newBlockIds
  return (newBlocks, pool, { manager.setBlocks requestId (manager.blocksOf requestId ++ newBlocks) with newBlockIds })

/-- What the source hands to `get_new_blocks` is not negative here: the blocks of the request are for computed tokens. -/
def allocateExternalComputedBlocks [DecidableEq η] (pool : BlockPool η) (requestId : String)
    (numLocalComputedTokens numExternalComputedTokens : Nat) : Except KvError (BlockPool η × SingleTypeKvCacheManager) :=
  let numTotalComputedTokens := numLocalComputedTokens + numExternalComputedTokens
  let numSkippedTokens := manager.getNumSkippedTokens numTotalComputedTokens
  let numExternal := if 0 < numSkippedTokens then min (numTotalComputedTokens - numSkippedTokens) numExternalComputedTokens
    else numExternalComputedTokens
  if numExternal = 0 then .ok (pool, manager)
  else (manager.extendBlocks pool requestId
    (cdiv numTotalComputedTokens manager.blockSize - (manager.blocksOf requestId).length)).map (·.2)

def allocateNewBlocks [DecidableEq η] (pool : BlockPool η) (requestId : String) (numTokens : Nat) :
    Except KvError (List BlockRef × BlockPool η × SingleTypeKvCacheManager) :=
  let numRequiredBlocks := cdiv numTokens manager.blockSize
  if numRequiredBlocks ≤ (manager.blocksOf requestId).length then
    .ok ([], pool, manager.setBlocks requestId (manager.blocksOf requestId))
  else manager.extendBlocks pool requestId (numRequiredBlocks - (manager.blocksOf requestId).length)

def numCached (requestId : String) : Nat := (manager.numCachedBlock.get? requestId).getD 0

def reachableBlockMask (startBlock endBlock : Nat) (retentionInterval : Option Nat) (numPromptTokens : Nat) :
    Except KvError (Option (List Bool)) :=
  match manager.spec.attention with
  | .fullAttention => .ok none
  | .slidingWindow slidingWindow => SlidingWindowManager.reachableBlockMask startBlock endBlock
    manager.schedulerBlockSize slidingWindow manager.blockSize manager.useEagle retentionInterval numPromptTokens

def cacheBlocks [DecidableEq η] (pool : BlockPool η) (request : Request η) (numTokens : Nat)
    (retentionInterval : Option Nat) : Except KvError (BlockPool η × SingleTypeKvCacheManager) :=
  let numCachedBlocks := manager.numCached request.requestId
  let numFullBlocks := numTokens / manager.blockSize
  if numFullBlocks ≤ numCachedBlocks then .ok (pool, manager)
  else do
    let blockMask ←
      manager.reachableBlockMask numCachedBlocks numFullBlocks retentionInterval request.numPromptTokens
    let pool ← pool.cacheFullBlocks request (manager.blocksOf request.requestId) numCachedBlocks numFullBlocks
      manager.blockSize manager.kvCacheGroupId blockMask
    return (pool, { manager with numCachedBlock := manager.numCachedBlock.set request.requestId numFullBlocks })

def popBlocksForFree (requestId : String) : List BlockRef × SingleTypeKvCacheManager :=
  (manager.blocksOf requestId, { manager with
    reqToBlocks := manager.reqToBlocks.erase requestId
    numCachedBlock := manager.numCachedBlock.erase requestId })

/-- The last blocks are freed first, so that they are the first to be taken again. -/
def free (pool : BlockPool η) (requestId : String) : Except KvError (BlockPool η × SingleTypeKvCacheManager) := do
  let popped := manager.popBlocksForFree requestId
  let pool ← pool.freeBlocks popped.1.reverse
  return (pool, popped.2)

/-- Blocks become null from the last one down to the first, or to one that is null already. -/
def nullLoop (nullBlock : BlockRef) (firstBlock : Nat) : Nat → List BlockRef → List BlockRef × List BlockRef
  | 0, blocks => (blocks, [])
  | i + 1, blocks =>
    match blocks[i]? with
    | none => (blocks, [])
    | some block =>
      if i < firstBlock ∨ block = nullBlock then (blocks, [])
      else
        let rest := nullLoop nullBlock firstBlock i (blocks.set i nullBlock)
        (rest.1, block :: rest.2)

def freeAny (pool : BlockPool η) (freed : List BlockRef) : Except KvError (BlockPool η) :=
  if freed = [] then .ok pool else pool.freeBlocks freed

def removeBlocksInRange (pool : BlockPool η) (requestId : String) (firstBlock lastBlock : Nat) :
    Except KvError (BlockPool η × SingleTypeKvCacheManager) :=
  if (manager.reqToBlocks.get? requestId).isNone ∨ lastBlock ≤ firstBlock then .ok (pool, manager)
  else do
    let blocks := manager.blocksOf requestId
    let removed := nullLoop pool.nullBlock firstBlock (min lastBlock blocks.length) blocks
    let pool ← freeAny pool removed.2
    return (pool, manager.setBlocks requestId removed.1)

def removeSkippedBlocks (pool : BlockPool η) (requestId : String) (processedComputedTokens : Nat) :
    Except KvError (BlockPool η × SingleTypeKvCacheManager) :=
  let numSkippedTokens := manager.getNumSkippedTokens processedComputedTokens
  if numSkippedTokens = 0 then .ok (pool, manager)
  else
    let manager := manager.setBlocks requestId (manager.blocksOf requestId)
    let numSkippedBlocks := min (numSkippedTokens / manager.blockSize) (manager.blocksOf requestId).length
    manager.removeBlocksInRange pool requestId 0 numSkippedBlocks

/-- The first blocks that every request with blocks has. -/
def getNumCommonPrefixBlocks (pool : BlockPool η) (runningRequestId : String) : Nat :=
  match manager.spec.attention with
  | .fullAttention =>
    ((manager.blocksOf runningRequestId).takeWhile fun block =>
      (pool.blocks block).refCnt = (manager.reqToBlocks.size : Int)).length
  | .slidingWindow _ => 0

end SingleTypeKvCacheManager

inductive CoordinatorKind where
  | noPrefixCache
  | unitary
  | hybrid
  deriving DecidableEq, Repr

structure KvCacheCoordinator (η : Type) where
  kind : CoordinatorKind
  groups : List KvCacheGroup
  schedulerBlockSize : Nat
  retentionInterval : Option Nat
  pool : BlockPool η
  managers : List SingleTypeKvCacheManager

structure KvCacheConfig where
  numBlocks : Nat
  kvCacheGroups : List KvCacheGroup
  needsKvCacheZeroing : Bool

structure CoordinatorArgs where
  maxModelLen : Nat
  maxInFlightTokens : Nat
  useEagle : Bool
  enableCaching : Bool
  enableKvCacheEvents : Bool
  schedulerBlockSize : Nat
  hashBlockSize : Nat
  retentionInterval : Option Nat

/-- Without any group marked for the draft model all of them are. -/
def eagleGroups (useEagle : Bool) (groups : List KvCacheGroup) : List KvCacheGroup :=
  if useEagle ∧ ¬ groups.any (·.isEagleGroup) then groups.map fun group => { group with isEagleGroup := true }
  else groups

def validatePrefixCacheRetentionInterval (args : CoordinatorArgs) (groups : List KvCacheGroup) : Except KvError Unit :=
  match args.retentionInterval with
  | none => .ok ()
  | some interval =>
    if groups.all (·.spec.attention = .fullAttention) ∨ interval % args.schedulerBlockSize ≠ 0 then .error .valueError
    else .ok ()

def coordinatorKind (enableCaching : Bool) (groups : List KvCacheGroup) : CoordinatorKind :=
  if ¬ enableCaching then .noPrefixCache else if groups.length = 1 then .unitary else .hybrid

/-- Groups of one specification drop the last block of a hit together. -/
def managerUsesEagle (kind : CoordinatorKind) (groups : List KvCacheGroup) (i : Nat) : Bool :=
  match kind with
  | .noPrefixCache => false
  | .unitary => groups.any (·.isEagleGroup)
  | .hybrid => (verifyAndSplitKvCacheGroups groups).any fun specGroup => specGroup.useEagle && decide (i ∈ specGroup.groupIds)

def SingleTypeKvCacheManager.new (config : KvCacheConfig) (args : CoordinatorArgs) (groups : List KvCacheGroup)
    (i : Nat) (group : KvCacheGroup) : SingleTypeKvCacheManager where
  spec := group.spec
  kvCacheGroupId := i
  schedulerBlockSize := args.schedulerBlockSize
  enableCaching := args.enableCaching
  maxAdmissionBlocksPerRequest := group.spec.attention.maxAdmissionBlocksPerRequest group.spec.blockSize
    args.maxInFlightTokens args.maxModelLen
  recordNewBlockIds := config.needsKvCacheZeroing && decide (group.spec.attention = .fullAttention)
  useEagle := managerUsesEagle (coordinatorKind args.enableCaching groups) groups i
  reqToBlocks := Dict.empty
  numCachedBlock := Dict.empty
  newBlockIds := []

def checkGroups (kind : CoordinatorKind) (hashBlockSize : Nat) (groups : List KvCacheGroup) : Bool :=
  match kind with
  | .noPrefixCache => true
  | .unitary => groups.all fun group => hashBlockSize = group.spec.blockSize
  | .hybrid => groups.all (fun group => group.spec.blockSize % hashBlockSize = 0) &&
    decide (1 < (verifyAndSplitKvCacheGroups groups).length)

def KvCacheCoordinator.new [DecidableEq η] (config : KvCacheConfig) (args : CoordinatorArgs) :
    Except KvError (KvCacheCoordinator η) := do
  assertThat (args.schedulerBlockSize % args.hashBlockSize = 0 ∧
    config.kvCacheGroups.all fun group => args.schedulerBlockSize % group.spec.blockSize = 0)
  let pool ← BlockPool.new config.numBlocks args.enableCaching args.hashBlockSize args.enableKvCacheEvents
  validatePrefixCacheRetentionInterval args config.kvCacheGroups
  let groups := eagleGroups args.useEagle config.kvCacheGroups
  let kind := coordinatorKind args.enableCaching groups
  assertThat (checkGroups kind args.hashBlockSize groups = true)
  return {
    kind, groups, pool
    schedulerBlockSize := args.schedulerBlockSize
    retentionInterval := args.retentionInterval
    managers := groups.mapIdx (SingleTypeKvCacheManager.new config args groups) }

/-- One step for each manager in turn, the pool handed on. -/
def forManagers {α : Type} (step : Nat → SingleTypeKvCacheManager → BlockPool η →
      Except KvError (α × BlockPool η × SingleTypeKvCacheManager)) :
    Nat → List SingleTypeKvCacheManager → BlockPool η →
      Except KvError (List α × BlockPool η × List SingleTypeKvCacheManager)
  | _, [], pool => .ok ([], pool, [])
  | i, manager :: managers, pool => do
    let (out, pool, manager) ← step i manager pool
    let (outs, pool, managers) ← forManagers step (i + 1) managers pool
    return (out :: outs, pool, manager :: managers)

namespace KvCacheCoordinator

variable (coordinator : KvCacheCoordinator η)

def update {α : Type} (step : Nat → SingleTypeKvCacheManager → BlockPool η →
    Except KvError (α × BlockPool η × SingleTypeKvCacheManager)) : Except KvError (List α × KvCacheCoordinator η) := do
  let (outs, pool, managers) ← forManagers step 0 coordinator.managers coordinator.pool
  return (outs, { coordinator with pool, managers })

def quiet (step : Except KvError (BlockPool η × SingleTypeKvCacheManager)) :
    Except KvError (Unit × BlockPool η × SingleTypeKvCacheManager) := step.map fun out => ((), out)

def sumLoop (newComputedBlocks : List (List BlockRef)) (requestId : String)
    (numTokens totalComputedTokens : Nat) (applyAdmissionCap : Bool) (pool : BlockPool η) :
    Nat → List SingleTypeKvCacheManager → Except KvError Nat
  | _, [] => .ok 0
  | i, manager :: managers => do
    let here ← manager.getNumBlocksToAllocate pool requestId numTokens (newComputedBlocks.getD i [])
      totalComputedTokens applyAdmissionCap
    let later ← sumLoop newComputedBlocks requestId numTokens totalComputedTokens applyAdmissionCap pool (i + 1) managers
    return here + later

def getNumBlocksToAllocate (requestId : String) (numTokens : Nat) (newComputedBlocks : List (List BlockRef))
    (totalComputedTokens : Nat) (applyAdmissionCap : Bool) : Except KvError Nat :=
  sumLoop newComputedBlocks requestId numTokens totalComputedTokens applyAdmissionCap coordinator.pool 0
    coordinator.managers

/-- The blocks found are touched in all groups before any block is taken for external tokens. -/
def allocateNewComputedBlocks [DecidableEq η] (requestId : String) (newComputedBlocks : List (List BlockRef))
    (numLocalComputedTokens numExternalComputedTokens : Nat) : Except KvError (KvCacheCoordinator η) :=
  if coordinator.managers.any fun manager => (manager.numCachedBlock.get? requestId).isSome then
    if newComputedBlocks.all (· = []) then .ok coordinator else .error .assertionError
  else do
    let (_, coordinator) ← coordinator.update fun i manager pool =>
      quiet (manager.addLocalComputedBlocks pool requestId (newComputedBlocks.getD i []) numLocalComputedTokens
        numExternalComputedTokens)
    if numExternalComputedTokens = 0 then return coordinator
    else
      let (_, coordinator) ← coordinator.update fun _ manager pool =>
        quiet (manager.allocateExternalComputedBlocks pool requestId numLocalComputedTokens numExternalComputedTokens)
      return coordinator

def allocateNewBlocks [DecidableEq η] (requestId : String) (numTokens : Nat) :
    Except KvError (List (List BlockRef) × KvCacheCoordinator η) :=
  coordinator.update fun _ manager pool => manager.allocateNewBlocks pool requestId numTokens

/-- With several types of groups only whole segments are cached, and one block more where the last is dropped. -/
def numTokensToCache (manager : SingleTypeKvCacheManager) (numComputedTokens : Nat) : Nat :=
  match coordinator.kind with
  | .hybrid =>
    let aligned := numComputedTokens / coordinator.schedulerBlockSize * coordinator.schedulerBlockSize
    if manager.useEagle ∧ 0 < aligned then min numComputedTokens (aligned + manager.blockSize) else aligned
  | _ => numComputedTokens

def cacheBlocks [DecidableEq η] (request : Request η) (numComputedTokens : Nat) :
    Except KvError (KvCacheCoordinator η) := do
  let (_, coordinator') ← coordinator.update fun _ manager pool => quiet (manager.cacheBlocks pool request
    (coordinator.numTokensToCache manager numComputedTokens) coordinator.retentionInterval)
  return coordinator'

def free (requestId : String) : Except KvError (KvCacheCoordinator η) := do
  let (_, coordinator) ← coordinator.update fun _ manager pool => quiet (manager.free pool requestId)
  return coordinator

def removeSkippedBlocks (requestId : String) (processedComputedTokens : Nat) :
    Except KvError (KvCacheCoordinator η) := do
  let (_, coordinator) ← coordinator.update fun _ manager pool =>
    quiet (manager.removeSkippedBlocks pool requestId processedComputedTokens)
  return coordinator

def getNumCommonPrefixBlocks (runningRequestId : String) : List Nat :=
  match coordinator.kind with
  | .noPrefixCache => coordinator.managers.map fun _ => 0
  | _ => coordinator.managers.map (·.getNumCommonPrefixBlocks coordinator.pool runningRequestId)

def getBlocks (requestId : String) : List (List BlockRef) := coordinator.managers.map (·.blocksOf requestId)

def unitaryHit [DecidableEq η] (group : KvCacheGroup) (blockHashes : List η) (maxCacheHitLength : Nat) :
    Except KvError (List (List BlockRef) × Nat) := do
  let specGroup : SpecGroup := ⟨group.spec, [0], group.isEagleGroup⟩
  let rows ← specGroup.findLongestCacheHit coordinator.pool blockHashes maxCacheHitLength group.isEagleGroup
    group.spec.blockSize
  return ([column rows 0], rows.length * group.spec.blockSize)

def findLongestCacheHit [DecidableEq η] (blockHashes : List η) (maxCacheHitLength : Nat) :
    Except KvError (List (List BlockRef) × Nat) :=
  match coordinator.kind, coordinator.groups with
  | .unitary, group :: _ => coordinator.unitaryHit group blockHashes maxCacheHitLength
  | .hybrid, groups => HybridKvCacheCoordinator.findLongestCacheHit coordinator.pool blockHashes
    coordinator.pool.hashBlockSize coordinator.schedulerBlockSize (verifyAndSplitKvCacheGroups groups) groups.length
    maxCacheHitLength
  | _, groups => .ok (groups.map fun _ => [], 0)

end KvCacheCoordinator

structure KvCacheManager (η : Type) where
  maxModelLen : Nat
  enableCaching : Bool
  watermarkBlocks : Nat
  coordinator : KvCacheCoordinator η

namespace KvCacheManager

variable [DecidableEq η] (manager : KvCacheManager η)

def new (config : KvCacheConfig) (args : CoordinatorArgs) (watermarkBlocks : Nat) :
    Except KvError (KvCacheManager η) := do
  let coordinator ← KvCacheCoordinator.new config args
  return { maxModelLen := args.maxModelLen, enableCaching := args.enableCaching, watermarkBlocks, coordinator }

def emptyKvCacheBlocks : List (List BlockRef) := manager.coordinator.groups.map fun _ => []

/-- The last token is always computed again, for its logits. -/
def getComputedBlocks (request : Request η) : Except KvError (List (List BlockRef) × Nat) :=
  if ¬ manager.enableCaching ∨ request.skipReadingPrefixCache then .ok (manager.emptyKvCacheBlocks, 0)
  else manager.coordinator.findLongestCacheHit request.blockHashes (request.numTokens - 1)

structure SlotRequest where
  numNewTokens : Nat
  numNewComputedTokens : Nat
  newComputedBlocks : List (List BlockRef)
  numLookaheadTokens : Nat
  numExternalComputedTokens : Nat
  delayCacheBlocks : Bool
  fullSequenceMustFit : Bool
  reservedBlocks : Nat
  hasScheduledReqs : Bool

variable (request : Request η) (slots : SlotRequest)

def numLocalComputedTokens : Nat := request.numComputedTokens + slots.numNewComputedTokens

def totalComputedTokens : Nat :=
  min (numLocalComputedTokens request slots + slots.numExternalComputedTokens) manager.maxModelLen

def numTokensNeedSlot : Nat :=
  min (manager.totalComputedTokens request slots + slots.numNewTokens + slots.numLookaheadTokens) manager.maxModelLen

/-- The blocks to be left free apart from what the request itself needs. -/
def headroom : Nat :=
  if slots.hasScheduledReqs ∧ (request.status = .waiting ∨ request.status = .preempted) then manager.watermarkBlocks
  else 0

def sequenceFits : Except KvError Bool :=
  if slots.fullSequenceMustFit then do
    let numBlocksToAllocate ← manager.coordinator.getNumBlocksToAllocate request.requestId
      (min request.numTokens manager.maxModelLen) slots.newComputedBlocks
      (manager.totalComputedTokens request slots) true
    return decide (numBlocksToAllocate + manager.headroom request slots ≤ manager.coordinator.pool.getNumFreeBlocks)
  else .ok true

def slotsFit : Except KvError Bool := do
  let numBlocksToAllocate ← manager.coordinator.getNumBlocksToAllocate request.requestId
    (manager.numTokensNeedSlot request slots) slots.newComputedBlocks
    (numLocalComputedTokens request slots + slots.numExternalComputedTokens) false
  let availableBlocks : Int := manager.coordinator.pool.getNumFreeBlocks - slots.reservedBlocks
  return decide (((numBlocksToAllocate + manager.headroom request slots : Nat) : Int) ≤ availableBlocks)

def addComputed : Except KvError (KvCacheCoordinator η) :=
  if slots.newComputedBlocks.any (· ≠ []) ∨ 0 < slots.numExternalComputedTokens then
    manager.coordinator.allocateNewComputedBlocks request.requestId slots.newComputedBlocks
      (numLocalComputedTokens request slots) slots.numExternalComputedTokens
  else .ok manager.coordinator

/-- Tokens that could be rejected yet are not cached. -/
def cacheNew (coordinator : KvCacheCoordinator η) : Except KvError (KvCacheCoordinator η) :=
  if ¬ manager.enableCaching ∨ slots.delayCacheBlocks then .ok coordinator
  else coordinator.cacheBlocks request
    (min (manager.totalComputedTokens request slots + slots.numNewTokens) request.numTokens)

def allocate : Except KvError (Option (List (List BlockRef)) × KvCacheManager η) := do
  let coordinator ← manager.addComputed request slots
  let (newBlocks, coordinator) ←
    coordinator.allocateNewBlocks request.requestId (manager.numTokensNeedSlot request slots)
  let coordinator ← manager.cacheNew request slots coordinator
  return (some newBlocks, { manager with coordinator })

/-- The blocks before the window are freed in any case. -/
def removeSkippedBlocks : Except KvError (KvCacheManager η) := do
  let coordinator ← manager.coordinator.removeSkippedBlocks request.requestId
    (manager.totalComputedTokens request slots - request.numInFlightTokens)
  return { manager with coordinator }

def allocateIfSlotsFit : Except KvError (Option (List (List BlockRef)) × KvCacheManager η) := do
  let manager ← manager.removeSkippedBlocks request slots
  let fits ← manager.slotsFit request slots
  if fits then manager.allocate request slots else return (none, manager)

/-- The new blocks of the request, or nothing where there are too few. -/
def allocateSlots : Except KvError (Option (List (List BlockRef)) × KvCacheManager η) :=
  if slots.numNewTokens = 0 ∧ slots.numExternalComputedTokens = 0 then .error .valueError
  else do
    let fits ← manager.sequenceFits request slots
    if fits then manager.allocateIfSlotsFit request slots else return (none, manager)

def free (requestId : String) : Except KvError (KvCacheManager η) := do
  let coordinator ← manager.coordinator.free requestId
  return { manager with coordinator }

def cacheBlocks (numComputedTokens : Nat) : Except KvError (KvCacheManager η) :=
  if manager.enableCaching then do
    let coordinator ← manager.coordinator.cacheBlocks request numComputedTokens
    return { manager with coordinator }
  else .ok manager

def evictBlocks (blockIds : List Nat) : Except KvError (KvCacheManager η) := do
  let pool ← manager.coordinator.pool.evictBlocks blockIds
  return { manager with coordinator := { manager.coordinator with pool } }

def resetPrefixCache : Bool × KvCacheManager η :=
  let reset := manager.coordinator.pool.resetPrefixCache
  (reset.1, { manager with coordinator := { manager.coordinator with pool := reset.2 } })

def takeEvents : List (KvCacheEvent η) × KvCacheManager η :=
  let taken := manager.coordinator.pool.takeEvents
  (taken.1, { manager with coordinator := { manager.coordinator with pool := taken.2 } })

end KvCacheManager

end DreamAifd.KvCache
