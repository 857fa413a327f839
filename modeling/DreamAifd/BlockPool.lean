import DreamAifd.BlockHashes
import DreamAifd.Dict
import DreamAifd.FreeBlockQueue

/-! The pool of the KV cache blocks: which of them are free, how many requests hold each of the others,
and which full ones can be found by their hash. -/
namespace DreamAifd.KvCache

open FreeBlockQueue

variable {η : Type}

/-- A `KVCacheBlock`, without the links, which are with the free list. -/
structure KvCacheBlock (η : Type) where
  refCnt : Int
  blockHash : Option (η × Nat)
  blockHashNumTokens : Option Nat
  isNull : Bool
  deriving DecidableEq, Repr

def KvCacheBlock.new : KvCacheBlock η := ⟨0, none, none, false⟩

def KvCacheBlock.resetHash (block : KvCacheBlock η) : KvCacheBlock η :=
  { block with blockHash := none, blockHashNumTokens := none }

def KvCacheBlock.setBlockHash (block : KvCacheBlock η) (blockHash : η × Nat) (numTokens : Option Nat) :
    Except KvError (KvCacheBlock η) :=
  if block.blockHash.isNone ∧ block.blockHashNumTokens.isNone then
    .ok { block with blockHash := some blockHash, blockHashNumTokens := numTokens }
  else .error .assertionError

/-- What the cache has for a key: a block, or a dictionary of blocks in the order they came. -/
inductive CachedBlocks where
  | single (block : BlockRef)
  | dict (blocks : List BlockRef)
  deriving DecidableEq, Repr

def CachedBlocks.toList : CachedBlocks → List BlockRef
  | .single block => [block]
  | .dict blocks => blocks

/-- Keys are a block's hash and its group. Blocks are told apart by identity, which their ids stand for. -/
abbrev BlockHashToBlockMap (η : Type) := Dict (η × Nat) CachedBlocks

namespace BlockHashToBlockMap

variable [DecidableEq η] (cache : BlockHashToBlockMap η)

def getOneBlock (key : η × Nat) : Option BlockRef :=
  match cache.get? key with
  | some (.single block) => some block
  | some (.dict blocks) => blocks.head?
  | none => none

def contain (key : η × Nat) (block : BlockRef) : Bool :=
  match cache.get? key with
  | some (.single other) => other = block
  | some (.dict blocks) => block ∈ blocks
  | none => false

def insert (key : η × Nat) (block : BlockRef) : BlockHashToBlockMap η :=
  match cache.get? key with
  | none => cache.set key (.single block)
  | some (.single other) => cache.set key (.dict (if other = block then [block] else [other, block]))
  | some (.dict blocks) => cache.set key (.dict (if block ∈ blocks then blocks else blocks ++ [block]))

/-- Whether the block was found, and the cache without it. -/
def pop (key : η × Nat) (block : BlockRef) : Bool × BlockHashToBlockMap η :=
  match cache.get? key with
  | none => (false, cache)
  | some (.single other) => if other = block then (true, cache.erase key) else (false, cache)
  | some (.dict blocks) =>
    let rest := blocks.erase block
    (block ∈ blocks, if rest = [] then cache.erase key else cache.set key (.dict rest))

end BlockHashToBlockMap

/-- The events an external router follows the cache by. -/
inductive KvCacheEvent (η : Type) where
  | blockStored (blockHashes : List η) (parentBlockHash : Option η) (tokenIds : List Int) (blockSize groupIdx : Nat)
  | blockRemoved (blockHash : η) (groupIdx : Nat)
  | allBlocksCleared
  deriving DecidableEq, Repr

/-- `blocks` has the fields of every block object. -/
structure BlockPool (η : Type) where
  numGpuBlocks : Nat
  enableCaching : Bool
  hashBlockSize : Nat
  blocks : BlockRef → KvCacheBlock η
  freeBlockQueue : FreeBlockQueue
  cachedBlockHashToBlock : BlockHashToBlockMap η
  cachedBlockHashesByBlock : Dict BlockRef (List (η × Nat))
  nullBlock : BlockRef
  enableKvCacheEvents : Bool
  kvEventQueue : List (KvCacheEvent η)

def resolveBlockHashes (request : Request η) (hashBlockSize blockSize : Nat) : Except KvError (List η) :=
  if blockSize = hashBlockSize then .ok request.blockHashes
  else if blockSize % hashBlockSize = 0 then
    .ok (blockHashListWithBlockSize request.blockHashes hashBlockSize blockSize)
  else .error .assertionError

namespace BlockPool

variable [DecidableEq η]

def allBlocks (numGpuBlocks : Nat) : List BlockRef := (List.range numGpuBlocks).map .pooled

def new (numGpuBlocks : Nat) (enableCaching : Bool) (hashBlockSize : Nat) (enableKvCacheEvents : Bool) :
    Except KvError (BlockPool η) := do
  assertThat (0 < numGpuBlocks)
  let (nullBlock, freeBlockQueue) ← (FreeBlockQueue.new (allBlocks numGpuBlocks)).popleft
  return {
    numGpuBlocks, enableCaching, hashBlockSize, freeBlockQueue, nullBlock, enableKvCacheEvents
    blocks := Function.update (fun _ => .new) nullBlock { KvCacheBlock.new with isNull := true }
    cachedBlockHashToBlock := Dict.empty
    cachedBlockHashesByBlock := Dict.empty
    kvEventQueue := [] }

def getNumFreeBlocks (pool : BlockPool η) : Int := pool.freeBlockQueue.numFreeBlocks

def setBlock (pool : BlockPool η) (block : BlockRef) (fields : KvCacheBlock η) : BlockPool η :=
  { pool with blocks := Function.update pool.blocks block fields }

def getCachedBlock (pool : BlockPool η) (blockHash : η) (kvCacheGroupIds : List Nat) : Option (List BlockRef) :=
  kvCacheGroupIds.mapM fun groupId => pool.cachedBlockHashToBlock.getOneBlock (blockHash, groupId)

/-- The keys that were found, and the cache without the block under any of them. -/
def popKeys (cache : BlockHashToBlockMap η) (block : BlockRef) :
    List (η × Nat) → List (η × Nat) × BlockHashToBlockMap η
  | [] => ([], cache)
  | key :: keys =>
    let popped := BlockHashToBlockMap.pop cache key block
    let rest := popKeys popped.2 block keys
    (if popped.1 then key :: rest.1 else rest.1, rest.2)

/-- The extra hashes of a block are a set; here they are in the order they were added. -/
def removeCachedBlockHashes (pool : BlockPool η) (block : BlockRef) : List (η × Nat) × BlockPool η :=
  let blockHashes := (pool.blocks block).blockHash.toList ++ (pool.cachedBlockHashesByBlock.get? block).getD []
  let pool := { pool with cachedBlockHashesByBlock := pool.cachedBlockHashesByBlock.erase block }
  if blockHashes = [] then ([], pool)
  else
    let popped := popKeys pool.cachedBlockHashToBlock block blockHashes
    (popped.1, { pool with cachedBlockHashToBlock := popped.2 }.setBlock block (pool.blocks block).resetHash)

def emitBlockRemovedEvents (pool : BlockPool η) (blockHashes : List (η × Nat)) : BlockPool η :=
  if pool.enableKvCacheEvents then
    { pool with kvEventQueue := pool.kvEventQueue ++ blockHashes.map fun key => .blockRemoved key.1 key.2 }
  else pool

def insertBlockHash (pool : BlockPool η) (key : η × Nat) (block : BlockRef) (numTokens : Option Nat) :
    Except KvError (BlockPool η) := do
  if (pool.blocks block).blockHash = some key then return pool
  if pool.cachedBlockHashToBlock.contain key block then return pool
  let pool ← match (pool.blocks block).blockHash with
    | none =>
      let fields ← (pool.blocks block).setBlockHash key numTokens
      pure (pool.setBlock block fields)
    | some _ =>
      let hashes := (pool.cachedBlockHashesByBlock.get? block).getD []
      let hashes := if key ∈ hashes then hashes else hashes ++ [key]
      pure { pool with cachedBlockHashesByBlock := pool.cachedBlockHashesByBlock.set block hashes }
  return { pool with cachedBlockHashToBlock := pool.cachedBlockHashToBlock.insert key block }

def maybeEvictCachedBlock (pool : BlockPool η) (block : BlockRef) : BlockPool η :=
  let removed := pool.removeCachedBlockHashes block
  if removed.1 = [] then removed.2 else removed.2.emitBlockRemovedEvents removed.1

/-- The blocks popped are given one reference each. -/
def allocateLoop (pool : BlockPool η) : List BlockRef → Except KvError (BlockPool η)
  | [] => .ok pool
  | block :: blocks =>
    let pool := if pool.enableCaching then pool.maybeEvictCachedBlock block else pool
    let fields := pool.blocks block
    if fields.refCnt ≠ 0 then .error .assertionError
    else allocateLoop (pool.setBlock block { fields with refCnt := fields.refCnt + 1 }) blocks

def getNewBlocks (pool : BlockPool η) (numBlocks : Nat) : Except KvError (List BlockRef × BlockPool η) := do
  if pool.getNumFreeBlocks < numBlocks then throw .valueError
  let (ret, freeBlockQueue) ← pool.freeBlockQueue.popleftN numBlocks
  return (ret, ← allocateLoop { pool with freeBlockQueue } ret)

/-- A block without references is in the free list, the null block apart. -/
def removeIfFree (pool : BlockPool η) (block : BlockRef) : Except KvError FreeBlockQueue :=
  if (pool.blocks block).refCnt = 0 ∧ ¬ (pool.blocks block).isNull then pool.freeBlockQueue.remove block
  else .ok pool.freeBlockQueue

def touch (pool : BlockPool η) : List BlockRef → Except KvError (BlockPool η)
  | [] => .ok pool
  | block :: blocks => do
    let fields := pool.blocks block
    let freeBlockQueue ← pool.removeIfFree block
    touch ({ pool with freeBlockQueue }.setBlock block { fields with refCnt := fields.refCnt + 1 }) blocks

/-- The blocks that become free, with a hash and without one, and what all blocks are then. -/
def releaseLoop (blocks : BlockRef → KvCacheBlock η) :
    List BlockRef → List BlockRef × List BlockRef × (BlockRef → KvCacheBlock η)
  | [] => ([], [], blocks)
  | block :: rest =>
    let fields := { blocks block with refCnt := (blocks block).refCnt - 1 }
    let later := releaseLoop (Function.update blocks block fields) rest
    if fields.refCnt = 0 ∧ ¬ fields.isNull then
      if fields.blockHash.isNone then (later.1, block :: later.2.1, later.2.2)
      else (block :: later.1, later.2.1, later.2.2)
    else later

/-- Blocks without a hash are the first to be taken again. -/
def freeBlocks (pool : BlockPool η) (orderedBlocks : List BlockRef) : Except KvError (BlockPool η) := do
  let released := releaseLoop pool.blocks orderedBlocks
  let queue ← pool.freeBlockQueue.prependN released.2.1
  let freeBlockQueue ← queue.appendN released.1
  return { pool with blocks := released.2.2, freeBlockQueue }

/-- A full block that has a hash already was found by a shorter prefix so far. -/
def promote (pool : BlockPool η) (block : BlockRef) (numHashTokens : Nat) : Except KvError (BlockPool η) :=
  match (pool.blocks block).blockHash with
  | none => .ok pool
  | some _ =>
    if (pool.blocks block).blockHashNumTokens.any (· < numHashTokens) then
      let removed := pool.removeCachedBlockHashes block
      .ok (removed.2.emitBlockRemovedEvents removed.1)
    else .error .assertionError

/-- The loop of `cache_full_blocks` from its `i`-th block on, and the hashes it went through. -/
def cacheLoop (newBlockHashes : List η) (numCachedBlocks blockSize groupId : Nat) (blockMask : Option (List Bool)) :
    Nat → List BlockRef → BlockPool η → Except KvError (List η × BlockPool η)
  | _, [], pool => .ok ([], pool)
  | i, block :: blocks, pool =>
    if (pool.blocks block).isNull ∨ blockMask.any (fun mask => mask[i]? ≠ some true) then
      cacheLoop newBlockHashes numCachedBlocks blockSize groupId blockMask (i + 1) blocks pool
    else
      match newBlockHashes[i]? with
      | none => .error .indexError
      | some blockHash => do
        let numHashTokens := (numCachedBlocks + i + 1) * blockSize
        let pool ← pool.promote block numHashTokens
        let pool ← pool.insertBlockHash (blockHash, groupId) block (some numHashTokens)
        let (newHashes, pool) ←
          cacheLoop newBlockHashes numCachedBlocks blockSize groupId blockMask (i + 1) blocks pool
        return (blockHash :: newHashes, pool)

def parentBlockHash (blockHashes : List η) (numCachedBlocks : Nat) : Except KvError (Option η) :=
  if numCachedBlocks = 0 then .ok none
  else match blockHashes[numCachedBlocks - 1]? with
    | none => .error .indexError
    | some parent => .ok (some parent)

def cacheFullBlocks (pool : BlockPool η) (request : Request η) (blocks : List BlockRef)
    (numCachedBlocks numFullBlocks blockSize groupId : Nat) (blockMask : Option (List Bool)) :
    Except KvError (BlockPool η) := do
  if numFullBlocks ≤ numCachedBlocks then return pool
  let newFullBlocks := slice blocks numCachedBlocks numFullBlocks
  assertThat (blockMask.all fun mask => mask.length = newFullBlocks.length)
  let blockHashes ← resolveBlockHashes request pool.hashBlockSize blockSize
  let (newHashes, pool) ←
    cacheLoop (blockHashes.drop numCachedBlocks) numCachedBlocks blockSize groupId blockMask 0 newFullBlocks pool
  if pool.enableKvCacheEvents then
    let parent ← parentBlockHash blockHashes numCachedBlocks
    let tokenIds := slice request.allTokenIds (numCachedBlocks * blockSize) (numFullBlocks * blockSize)
    let event := .blockStored newHashes parent tokenIds blockSize groupId
    return { pool with kvEventQueue := pool.kvEventQueue ++ [event] }
  else return pool

/-- The events for blocks that a request finds in the cache, which stay as they are. -/
def emitCachedBlockEvents (pool : BlockPool η) (request : Request η) (numCachedBlocks blockSize groupId : Nat) :
    Except KvError (BlockPool η) := do
  if ¬ pool.enableKvCacheEvents ∨ numCachedBlocks = 0 then return pool
  let blockHashes ← resolveBlockHashes request pool.hashBlockSize blockSize
  if blockHashes.length < numCachedBlocks then throw .indexError
  let tokenIds := request.allTokenIds.take (numCachedBlocks * blockSize)
  let event := .blockStored (blockHashes.take numCachedBlocks) none tokenIds blockSize groupId
  return { pool with kvEventQueue := pool.kvEventQueue ++ [event] }

/-- The hash of the prefix that ends inside a block makes the block found by that prefix too. -/
def cachePartialBlock (pool : BlockPool η) (request : Request η) (block : BlockRef)
    (numTokens groupId blockSize : Nat) : Except KvError (Option (η × Nat) × BlockPool η) := do
  if (pool.blocks block).isNull then return (none, pool)
  assertThat (pool.hashBlockSize < blockSize)
  assertThat (blockSize % pool.hashBlockSize = 0)
  assertThat (numTokens % blockSize ≠ 0)
  assertThat (numTokens % pool.hashBlockSize = 0)
  let numHashBlocks := numTokens / pool.hashBlockSize
  assertThat (0 < numHashBlocks)
  match request.blockHashes[numHashBlocks - 1]? with
  | none => throw .assertionError
  | some blockHash =>
    let key := (blockHash, groupId)
    let alreadyCached := (pool.blocks block).blockHash = some key || pool.cachedBlockHashToBlock.contain key block
    let promoted := ¬ alreadyCached ∧ (pool.blocks block).blockHash.isSome ∧
      (pool.blocks block).blockHashNumTokens.any (· < numHashBlocks * pool.hashBlockSize)
    let pool :=
      if promoted then
        let removed := pool.removeCachedBlockHashes block
        removed.2.emitBlockRemovedEvents removed.1
      else pool
    let pool ← pool.insertBlockHash key block (some (numHashBlocks * pool.hashBlockSize))
    let pool :=
      if pool.enableKvCacheEvents ∧ ¬ alreadyCached then
        let parentHash := if 1 < numHashBlocks then request.blockHashes[numHashBlocks - 2]? else none
        let blockStart := (numHashBlocks - 1) * pool.hashBlockSize
        let event := .blockStored [blockHash] parentHash (slice request.allTokenIds blockStart numTokens)
          (numTokens - blockStart) groupId
        { pool with kvEventQueue := pool.kvEventQueue ++ [event] }
      else pool
    return (some key, pool)

def evictBlocks (pool : BlockPool η) : List Nat → Except KvError (BlockPool η)
  | [] => .ok pool
  | blockId :: blockIds =>
    if blockId < pool.numGpuBlocks then evictBlocks (pool.maybeEvictCachedBlock (.pooled blockId)) blockIds
    else .error .assertionError

def resetPrefixCache (pool : BlockPool η) : Bool × BlockPool η :=
  let numUsedBlocks : Int := pool.numGpuBlocks - pool.getNumFreeBlocks
  if numUsedBlocks ≠ 1 then (false, pool)
  else (true, { pool with
    cachedBlockHashToBlock := Dict.empty
    cachedBlockHashesByBlock := Dict.empty
    blocks := fun block => if block ∈ allBlocks pool.numGpuBlocks then (pool.blocks block).resetHash else pool.blocks block
    kvEventQueue := if pool.enableKvCacheEvents then pool.kvEventQueue ++ [.allBlocksCleared] else pool.kvEventQueue })

def takeEvents (pool : BlockPool η) : List (KvCacheEvent η) × BlockPool η :=
  if pool.enableKvCacheEvents then (pool.kvEventQueue, { pool with kvEventQueue := [] }) else ([], pool)

end BlockPool

end DreamAifd.KvCache
