import DreamAifd.TableLedger

/-! What each operation of a manager does to the tables, and that it keeps them the ledger of the pool. -/
namespace DreamAifd.KvCache

open BlockPool SingleTypeKvCacheManager

variable {η : Type} [DecidableEq η]

namespace SingleTypeKvCacheManager

variable {manager : SingleTypeKvCacheManager} {requestId other : String} {blocks : List BlockRef}

@[simp] theorem blocksOf_setBlocks_self : (manager.setBlocks requestId blocks).blocksOf requestId = blocks := by
  simp [setBlocks, blocksOf]

@[simp] theorem numCached_setBlocks : (manager.setBlocks requestId blocks).numCached other = manager.numCached other := rfl

@[simp] theorem toManagerConfig_setBlocks :
    (manager.setBlocks requestId blocks).toManagerConfig = manager.toManagerConfig := rfl

theorem entryStep_setBlocks (manager : SingleTypeKvCacheManager) (requestId : String) (blocks : List BlockRef) :
    EntryStep requestId manager (manager.setBlocks requestId blocks) :=
  ⟨rfl, fun _ different => Dict.get?_set_ne _ _ different, fun _ _ => rfl⟩

/-- The entry of the request set, and how many of its blocks are cached. -/
theorem entryStep_setCached (manager : SingleTypeKvCacheManager) (requestId : String) (blocks : List BlockRef) (n : Nat) :
    EntryStep requestId manager { manager.setBlocks requestId blocks with
      numCachedBlock := manager.numCachedBlock.set requestId n } :=
  ⟨rfl, fun _ different => Dict.get?_set_ne _ _ different, fun _ different => Dict.get?_set_ne _ _ different⟩

end SingleTypeKvCacheManager

section Steps

variable {evicts : Bool} {pool pool' : BlockPool η} {free : List BlockRef} {pre post : List SingleTypeKvCacheManager}
  {manager manager' : SingleTypeKvCacheManager} {requestId : String}

/-- What is kept of the index: a block that is not of those given has the keys it had, and nothing new is found. -/
structure KeysKept (given : List BlockRef) (pool pool' : BlockPool η) : Prop where
  keys : ∀ block ∉ given, pool'.keysOf block = pool.keysOf block
  under : ∀ key block, block ∈ pool'.under key → block ∈ pool.under key

theorem KeysKept.of_sameIndex (same : SameIndex pool pool') : KeysKept [] pool pool' :=
  ⟨fun block _ => same.keysOf block, fun key block => by
    rw [BlockPool.under, same.cachedBlockHashToBlock]
    exact id⟩

/-- New blocks come from the front of the free list and are the request's alone. -/
theorem extendBlocks_spec (ledger : Ledger evicts pool free (pre ++ manager :: post)) (requestId : String) {n : Nat}
    (enough : n ≤ free.length) :
    ∃ pool' manager', manager.extendBlocks pool requestId n = .ok (free.take n, pool', manager') ∧
      EntryStep requestId manager manager' ∧ manager'.blocksOf requestId = manager.blocksOf requestId ++ free.take n ∧
      manager'.numCachedBlock = manager.numCachedBlock ∧
      Ledger evicts pool' (free.drop n) (pre ++ manager' :: post) ∧ SamePool pool pool' ∧
      KeysKept (free.take n) pool pool' := by
  obtain ⟨pool', ran, held, same, cleared, kept, under⟩ := ledger.held.getNewBlocks enough
  set taken := free.take n with taken_eq
  have distinct : taken.Nodup := ledger.held.nodup.sublist (List.take_sublist n free)
  have unheld : ∀ block ∈ taken, tableCount (pre ++ manager :: post) block = 0 := fun block member =>
    (ledger.held.mem_free.mp (List.mem_of_mem_take member)).2.2
  refine ⟨pool', _, bind_eq_ok.mpr ⟨_, ran, rfl⟩, ⟨rfl, fun _ different => Dict.get?_set_ne _ _ different, fun _ _ => rfl⟩,
    blocksOf_setBlocks_self, rfl, ?_, same, ⟨kept, under⟩⟩
  set manager' : SingleTypeKvCacheManager := { manager.setBlocks requestId (manager.blocksOf requestId ++ taken) with
    newBlockIds := if manager.recordNewBlockIds then manager.newBlockIds ++ taken else manager.newBlockIds }
  have entry : EntryStep requestId manager manager' :=
    ⟨rfl, fun _ different => Dict.get?_set_ne _ _ different, fun _ _ => rfl⟩
  have table : manager'.blocksOf requestId = manager.blocksOf requestId ++ taken := blocksOf_setBlocks_self
  have counts : ∀ block, tableCount (pre ++ manager' :: post) block =
      tableCount (pre ++ manager :: post) block + taken.count block := by
    intro block
    have step := tableCount_step pre post entry block
    rw [table, List.count_append] at step
    omega
  refine ledger.step entry same (held.congr fun block _ => counts block) (fun block _ absent counted unkeyed => ?_)
    fun block here different => ?_
  · have free_of : block ∉ taken := fun inside => counted (unheld block inside)
    refine ⟨(kept block free_of).trans unkeyed, ?_⟩
    rw [table, List.mem_append, not_or]
    exact ⟨absent, free_of⟩
  · obtain ⟨i, behind, at_i⟩ := here
    rw [table] at at_i
    rw [counts]
    by_cases old : i < (manager.blocksOf requestId).length
    · rw [List.getElem?_append_left old] at at_i
      obtain ⟨once, unkeyed⟩ := ledger.isolated manager (List.mem_append_right _ List.mem_cons_self) requestId block
        ⟨i, behind, at_i⟩ different
      have free_of : block ∉ taken := fun inside => by
        have zero := unheld block inside
        omega
      rw [List.count_eq_zero_of_not_mem free_of]
      exact ⟨once, (kept block free_of).trans unkeyed⟩
    · rw [List.getElem?_append_right (not_lt.mp old)] at at_i
      have inside := List.mem_of_getElem? at_i
      rw [unheld block inside, List.count_eq_one_of_mem distinct inside]
      exact ⟨rfl, cleared block inside⟩

/-- The blocks of a hit, as they come from the cache. -/
def FromCache (pool : BlockPool η) (blocks : List BlockRef) : Prop :=
  ∀ block ∈ blocks, block = pool.nullBlock ∨ pool.keysOf block ≠ []

omit [DecidableEq η] in
theorem FromCache.of_kept {blocks : List BlockRef} (found : FromCache pool blocks) (same : SameIndex pool pool') :
    FromCache pool' blocks := fun block member => by
  rw [same.nullBlock, same.keysOf]
  exact found block member

def numSkipped (manager : SingleTypeKvCacheManager) (numTokens : Nat) : Nat :=
  manager.getNumSkippedTokens numTokens / manager.blockSize

theorem count_replicate_null {block nullBlock : BlockRef} (different : block ≠ nullBlock) (n : Nat) :
    (List.replicate n nullBlock).count block = 0 :=
  List.count_eq_zero_of_not_mem fun member => different (List.eq_of_mem_replicate member)

/-- The blocks found are held once more, and no block of the request is open yet. -/
theorem addLocalComputedBlocks_spec (ledger : Ledger evicts pool free (pre ++ manager :: post))
    {blocks : List BlockRef} {numLocal numExternal : Nat} (empty : manager.blocksOf requestId = [])
    (found : FromCache pool blocks) (caching : manager.enableCaching = true ∨ blocks = []) :
    ∃ pool' manager', manager.addLocalComputedBlocks pool requestId blocks numLocal numExternal = .ok (pool', manager') ∧
      EntryStep requestId manager manager' ∧
      manager'.blocksOf requestId = List.replicate (numSkipped manager (numLocal + numExternal)) pool.nullBlock ++
        blocks.drop (numSkipped manager (numLocal + numExternal)) ∧
      manager'.numCachedBlock.get? requestId = some (manager'.blocksOf requestId).length ∧
      Ledger evicts pool' (free.filter (· ∉ blocks.drop (numSkipped manager (numLocal + numExternal))))
        (pre ++ manager' :: post) ∧ SameIndex pool pool' := by
  set skipped := numSkipped manager (numLocal + numExternal) with skipped_eq
  have members : ∀ block ∈ blocks.drop skipped, block ∈ allBlocks pool.numGpuBlocks := by
    intro block member
    rcases found block (List.mem_of_mem_drop member) with rfl | keyed
    · exact ledger.held.null_mem
    · exact (ledger.held.keyed keyed).1
  obtain ⟨pool', touched, held, index⟩ := ledger.held.touch members
  have given : (if manager.enableCaching then blocks.drop skipped else []) = blocks.drop skipped := by
    rcases caching with on | rfl
    · rw [if_pos on]
    · rw [List.drop_nil, ite_self]
  have allowed : manager.enableCaching = true ∨ blocks.drop skipped = [] := caching.imp_right fun nothing => by
    rw [nothing, List.drop_nil]
  set manager' : SingleTypeKvCacheManager := { manager.setBlocks requestId
      (List.replicate skipped pool.nullBlock ++ blocks.drop skipped) with
    numCachedBlock := manager.numCachedBlock.set requestId
      (List.replicate skipped pool.nullBlock ++ blocks.drop skipped).length } with manager_eq
  have entry : EntryStep requestId manager manager' := entryStep_setCached ..
  have table : manager'.blocksOf requestId = List.replicate skipped pool.nullBlock ++ blocks.drop skipped :=
    blocksOf_setBlocks_self
  have cached : manager'.numCachedBlock.get? requestId = some (manager'.blocksOf requestId).length := by
    rw [table]
    exact Dict.get?_set_self ..
  have ran : manager.addLocalComputedBlocks pool requestId blocks numLocal numExternal = .ok (pool', manager') := by
    refine assertThat_bind.mpr ⟨empty, assertThat_bind.mpr ⟨allowed, bind_eq_ok.mpr ⟨pool', ?_, ?_⟩⟩⟩
    · rw [← touched, ← given]
      rfl
    · rw [index.nullBlock]
      rfl
  refine ⟨pool', manager', ran, entry, table, cached, ?_, index⟩
  have counts : ∀ block ≠ pool.nullBlock, tableCount (pre ++ manager' :: post) block =
      tableCount (pre ++ manager :: post) block + (blocks.drop skipped).count block := by
    intro block different
    have step := tableCount_step pre post entry block
    rw [table, List.count_append, count_replicate_null different, empty, List.count_nil] at step
    omega
  refine ledger.step entry (.of_sameIndex index)
    (held.congr fun block different => counts block (index.nullBlock ▸ different))
    (fun block different _ _ unkeyed => ⟨(index.keysOf block).trans unkeyed, ?_⟩) fun block here _ => ?_
  · rw [table, List.mem_append, not_or]
    refine ⟨fun member => different (List.eq_of_mem_replicate member), fun member => ?_⟩
    exact (found block (List.mem_of_mem_drop member)).elim different fun keyed => keyed unkeyed
  · obtain ⟨i, behind, at_i⟩ := here
    rw [SingleTypeKvCacheManager.numCached, cached, Option.getD_some] at behind
    rw [List.getElem?_eq_none behind] at at_i
    cases at_i

theorem mem_slice {blocks : List BlockRef} {start stop : Nat} {block : BlockRef}
    (member : block ∈ slice blocks start stop) : ∃ i, start ≤ i ∧ i < stop ∧ blocks[i]? = some block := by
  obtain ⟨k, at_k⟩ := List.getElem?_of_mem member
  rw [slice, List.getElem?_drop, List.getElem?_take] at at_k
  split at at_k
  next inside => exact ⟨start + k, Nat.le_add_right .., inside, at_k⟩
  · cases at_k

/-- A block before and one from a position on are two. -/
theorem two_le_count {blocks : List BlockRef} {block : BlockRef} {i j n : Nat} (before : i < n) (after : n ≤ j)
    (at_i : blocks[i]? = some block) (at_j : blocks[j]? = some block) : 2 ≤ blocks.count block := by
  have first : block ∈ blocks.take n := List.mem_of_getElem? (show (blocks.take n)[i]? = some block by
    rw [List.getElem?_take_of_lt before, at_i])
  have second : block ∈ blocks.drop n := List.mem_of_getElem? (show (blocks.drop n)[j - n]? = some block by
    rw [List.getElem?_drop, Nat.add_sub_cancel' after, at_j])
  rw [← List.take_append_drop n blocks, List.count_append]
  have one := List.count_pos_iff.mpr first
  have another := List.count_pos_iff.mpr second
  omega

/-- The blocks to be cached are open so far, so each of them is the request's alone and stands there once. -/
theorem Ledger.openSlice (ledger : Ledger evicts pool free (pre ++ manager :: post)) (requestId : String) (stop : Nat) :
    (∀ block ∈ pool.realBlocks (slice (manager.blocksOf requestId) (manager.numCached requestId) stop),
      block ≠ pool.nullBlock ∧ manager.Open requestId block ∧ tableCount (pre ++ manager :: post) block = 1 ∧
        pool.keysOf block = []) ∧
      (pool.realBlocks (slice (manager.blocksOf requestId) (manager.numCached requestId) stop)).Nodup := by
  have each : ∀ block ∈ pool.realBlocks (slice (manager.blocksOf requestId) (manager.numCached requestId) stop),
      block ≠ pool.nullBlock ∧ manager.Open requestId block ∧ tableCount (pre ++ manager :: post) block = 1 ∧
        pool.keysOf block = [] := by
    intro block member
    obtain ⟨inside, not_null⟩ := List.mem_filter.mp member
    obtain ⟨i, behind, _, at_i⟩ := mem_slice inside
    have different : block ≠ pool.nullBlock := fun null => by
      rw [(ledger.held.isNull_iff block).mpr null] at not_null
      exact Bool.noConfusion not_null
    have here : manager.Open requestId block := ⟨i, behind, at_i⟩
    exact ⟨different, here, ledger.isolated manager (List.mem_append_right _ List.mem_cons_self) requestId block here different⟩
  refine ⟨each, List.nodup_iff_count_le_one.mpr fun block => ?_⟩
  by_cases inside : block ∈ pool.realBlocks (slice (manager.blocksOf requestId) (manager.numCached requestId) stop)
  · have sublist : (pool.realBlocks (slice (manager.blocksOf requestId) (manager.numCached requestId) stop)).Sublist
        (manager.blocksOf requestId) :=
      List.filter_sublist.trans ((List.drop_sublist _ _).trans (List.take_sublist _ _))
    exact (sublist.count_le block).trans ((manager.count_le requestId block).trans
      ((count_le_tableCount (List.mem_append_right _ List.mem_cons_self) block).trans (each block inside).2.2.1.le))
  · rw [List.count_eq_zero_of_not_mem inside]
    exact Nat.zero_le _

/-- The blocks cached are those open so far. -/
theorem cacheBlocks_ledger (ledger : Ledger evicts pool free (pre ++ manager :: post)) {request : Request η}
    {numTokens : Nat} {retentionInterval : Option Nat} (caching : pool.enableCaching = true)
    (ran : manager.cacheBlocks pool request numTokens retentionInterval = .ok (pool', manager')) :
    EntryStep request.requestId manager manager' ∧ manager'.reqToBlocks = manager.reqToBlocks ∧
      manager'.numCached request.requestId = max (manager.numCached request.requestId) (numTokens / manager.blockSize) ∧
      Ledger evicts pool' free (pre ++ manager' :: post) ∧ SamePool pool pool' := by
  unfold cacheBlocks at ran
  dsimp only at ran
  split at ran
  next few =>
    obtain ⟨rfl, rfl⟩ := Prod.mk.inj (Except.ok.inj ran)
    exact ⟨.refl _ _, rfl, (max_eq_left few).symm, ledger, .refl _⟩
  next more =>
    obtain ⟨mask, _, ran⟩ := bind_eq_ok.mp ran
    obtain ⟨last, cached, ran⟩ := bind_eq_ok.mp ran
    obtain ⟨rfl, rfl⟩ := Prod.mk.inj (Except.ok.inj ran)
    obtain ⟨real, distinct⟩ := ledger.openSlice request.requestId (numTokens / manager.blockSize)
    set numFull := numTokens / manager.blockSize with full_eq
    set table := manager.blocksOf request.requestId with table_eq
    have isolated := ledger.isolated manager (List.mem_append_right _ List.mem_cons_self) request.requestId
    have at_most : ∀ block, table.count block ≤ tableCount (pre ++ manager :: post) block := fun block =>
      (manager.count_le request.requestId block).trans
        (count_le_tableCount (List.mem_append_right _ List.mem_cons_self) block)
    have owned : ∀ block ∈ slice table (manager.numCached request.requestId) numFull, block ≠ pool.nullBlock →
        tableCount (pre ++ manager :: post) block ≠ 0 := by
      intro block member _
      obtain ⟨i, _, _, at_i⟩ := mem_slice member
      exact (tableCount_pos (List.mem_append_right _ List.mem_cons_self) (List.mem_of_getElem? at_i)).ne'
    obtain ⟨held, same, kept⟩ := ledger.held.cacheFullBlocks caching distinct owned cached
    set manager' : SingleTypeKvCacheManager := { manager with
      numCachedBlock := manager.numCachedBlock.set request.requestId numFull }
    have entry : EntryStep request.requestId manager manager' :=
      ⟨rfl, fun _ _ => rfl, fun _ different => Dict.get?_set_ne _ _ different⟩
    have counted : manager'.numCached request.requestId = numFull := by
      rw [SingleTypeKvCacheManager.numCached, Dict.get?_set_self, Option.getD_some]
    have counts : ∀ block, tableCount (pre ++ manager' :: post) block =
        tableCount (pre ++ manager :: post) block := by
      intro block
      have step := tableCount_step pre post entry block
      exact Nat.add_right_cancel step
    refine ⟨entry, rfl, by rw [counted, max_eq_right (by omega)], ?_, same⟩
    refine ledger.step entry same (held.congr fun block _ => counts block) (fun block _ absent _ unkeyed =>
      ⟨(kept block fun inside => absent (real block inside).2.1.mem).trans unkeyed, absent⟩) fun block here different => ?_
    obtain ⟨i, behind, at_i⟩ := here
    rw [counted] at behind
    obtain ⟨once, unkeyed⟩ := isolated block ⟨i, by omega, at_i⟩ different
    refine ⟨(counts block).trans once, (kept block fun inside => ?_).trans unkeyed⟩
    -- It would stand in the table twice.
    obtain ⟨j, _, before, at_j⟩ := mem_slice (List.mem_of_mem_filter inside)
    have twice := two_le_count before behind at_j at_i
    have once_here := at_most block
    omega

/-- A request without blocks is as if it were not there. -/
theorem free_spec (ledger : Ledger evicts pool free (pre ++ manager :: post)) (requestId : String) :
    ∃ pool' free' manager', manager.free pool requestId = .ok (pool', manager') ∧
      EntryStep requestId manager manager' ∧ manager'.reqToBlocks.get? requestId = none ∧
      manager'.numCachedBlock.get? requestId = none ∧ Ledger evicts pool' free' (pre ++ manager' :: post) ∧
      SameIndex pool pool' := by
  have owned : ∀ block ≠ pool.nullBlock,
      (manager.blocksOf requestId).reverse.count block ≤ tableCount (pre ++ manager :: post) block := by
    intro block _
    rw [List.count_reverse]
    exact (manager.count_le requestId block).trans
      (count_le_tableCount (List.mem_append_right _ List.mem_cons_self) block)
  obtain ⟨pool', free', freed, held, index⟩ := ledger.held.freeBlocks owned
  set manager' : SingleTypeKvCacheManager := { manager with
    reqToBlocks := manager.reqToBlocks.erase requestId
    numCachedBlock := manager.numCachedBlock.erase requestId } with manager_eq
  have entry : EntryStep requestId manager manager' := by
    refine ⟨rfl, fun other different => ?_, fun other different => ?_⟩
    · exact (Dict.get?_erase ..).trans (if_neg different)
    · exact (Dict.get?_erase ..).trans (if_neg different)
  have gone : manager'.reqToBlocks.get? requestId = none := (Dict.get?_erase ..).trans (if_pos rfl)
  have nothing : manager'.blocksOf requestId = [] := by rw [blocksOf, gone, Option.getD_none]
  refine ⟨pool', free', manager', bind_eq_ok.mpr ⟨pool', freed, rfl⟩, entry, gone,
    (Dict.get?_erase ..).trans (if_pos rfl), ?_, index⟩
  refine ledger.step entry (.of_sameIndex index) (held.congr fun block _ => ?_)
    (fun block _ _ _ unkeyed => ⟨(index.keysOf block).trans unkeyed, by rw [nothing]; exact List.not_mem_nil⟩)
    fun block here _ => ?_
  · have step := tableCount_step pre post entry block
    rw [nothing, List.count_nil] at step
    rw [List.count_reverse]
    omega
  · have member := here.mem
    rw [nothing] at member
    exact absurd member List.not_mem_nil

structure Nulled (nullBlock : BlockRef) (n : Nat) (blocks : List BlockRef) (result : List BlockRef × List BlockRef) :
    Prop where
  length : result.1.length = blocks.length
  count : ∀ block ≠ nullBlock, result.2.count block + result.1.count block = blocks.count block
  kept : ∀ (i : Nat) (block : BlockRef), result.1[i]? = some block → block = nullBlock ∨ blocks[i]? = some block
  later : ∀ i : Nat, n ≤ i → result.1[i]? = blocks[i]?

theorem nullLoop_spec (nullBlock : BlockRef) (firstBlock n : Nat) (blocks : List BlockRef) :
    Nulled nullBlock n blocks (nullLoop nullBlock firstBlock n blocks) := by
  have stop : ∀ n, Nulled nullBlock n blocks (blocks, []) := fun n =>
    ⟨rfl, fun block _ => by simp, fun _ _ => .inr, fun _ _ => rfl⟩
  induction n generalizing blocks with
  | zero => exact stop 0
  | succ n ih =>
    unfold nullLoop
    split
    · exact stop _
    next old at_n =>
      split
      · exact stop _
      next going =>
        obtain ⟨_, different⟩ := not_or.mp going
        have inside := (List.getElem?_eq_some_iff.mp at_n).1
        have stop' : ∀ m, Nulled nullBlock m (blocks.set n nullBlock) (blocks.set n nullBlock, []) := fun m =>
          ⟨rfl, fun block _ => by simp, fun _ _ => .inr, fun _ _ => rfl⟩
        obtain ⟨length, count, kept, later⟩ := ih (blocks.set n nullBlock) stop'
        refine ⟨length.trans (List.length_set ..), fun block real => ?_, fun i block at_i => ?_, fun i behind => ?_⟩
        · have before := count block real
          have here : blocks[n] = old := (List.getElem?_eq_some_iff.mp at_n).2
          have member : 0 < blocks.count old := List.count_pos_iff.mpr (List.mem_of_getElem? at_n)
          rw [List.count_set inside, here, beq_false_of_ne (Ne.symm real)] at before
          rw [List.count_cons]
          by_cases same : old = block
          · subst same
            simp only [beq_self_eq_true, if_true, Bool.false_eq_true, if_false] at before ⊢
            omega
          · simp only [beq_false_of_ne same, Bool.false_eq_true, if_false] at before ⊢
            omega
        · rcases kept i block at_i with null | same
          · exact .inl null
          · rw [List.getElem?_set] at same
            split at same
            next here =>
              exact .inl (Option.some.inj same).symm
            next => exact .inr same
        · rw [later i (by omega), List.getElem?_set_ne (by omega)]

/-- Blocks of a request that is no longer needed become null, and are no longer held. -/
structure Shrunk (requestId : String) (n : Nat) (manager manager' : SingleTypeKvCacheManager) (nullBlock : BlockRef) :
    Prop where
  entry : EntryStep requestId manager manager'
  numCachedBlock : manager'.numCachedBlock = manager.numCachedBlock
  length : (manager'.blocksOf requestId).length = (manager.blocksOf requestId).length
  kept : ∀ (i : Nat) (block : BlockRef), (manager'.blocksOf requestId)[i]? = some block →
    block = nullBlock ∨ (manager.blocksOf requestId)[i]? = some block
  later : ∀ i : Nat, n ≤ i → (manager'.blocksOf requestId)[i]? = (manager.blocksOf requestId)[i]?

theorem removeBlocksInRange_spec (ledger : Ledger evicts pool free (pre ++ manager :: post)) (requestId : String)
    (firstBlock lastBlock : Nat) :
    ∃ pool' free' manager', manager.removeBlocksInRange pool requestId firstBlock lastBlock = .ok (pool', manager') ∧
      Shrunk requestId lastBlock manager manager' pool.nullBlock ∧ Ledger evicts pool' free' (pre ++ manager' :: post) ∧
      SameIndex pool pool' := by
  unfold removeBlocksInRange
  split
  · exact ⟨pool, free, manager, rfl, ⟨.refl _ _, rfl, rfl, fun _ _ => .inr, fun _ _ => rfl⟩, ledger, .refl pool⟩
  set table := manager.blocksOf requestId with table_eq
  have nulled := nullLoop_spec pool.nullBlock firstBlock (min lastBlock table.length) table
  set result := nullLoop pool.nullBlock firstBlock (min lastBlock table.length) table with result_eq
  have at_most : ∀ block, table.count block ≤ tableCount (pre ++ manager :: post) block := fun block =>
    (manager.count_le requestId block).trans
      (count_le_tableCount (List.mem_append_right _ List.mem_cons_self) block)
  obtain ⟨pool', free', freed, held, index⟩ : ∃ pool' free', freeAny pool result.2 = .ok pool' ∧
      Held evicts pool' free' (fun block => tableCount (pre ++ manager :: post) block - result.2.count block) ∧
      SameIndex pool pool' := by
    unfold freeAny
    split
    next nothing =>
      exact ⟨pool, free, rfl, ledger.held.congr fun block _ => by rw [nothing, List.count_nil, Nat.sub_zero], .refl pool⟩
    next =>
      refine ledger.held.freeBlocks fun block different => le_trans ?_ (at_most block)
      have split := nulled.count block different
      omega
  have entry := entryStep_setBlocks manager requestId result.1
  have table' : (manager.setBlocks requestId result.1).blocksOf requestId = result.1 := blocksOf_setBlocks_self
  have counts : ∀ block ≠ pool.nullBlock, tableCount (pre ++ manager.setBlocks requestId result.1 :: post) block =
      tableCount (pre ++ manager :: post) block - result.2.count block := by
    intro block different
    have step := tableCount_step pre post entry block
    have split := nulled.count block different
    have bound := at_most block
    rw [table', ← table_eq] at step
    omega
  refine ⟨pool', free', manager.setBlocks requestId result.1, bind_eq_ok.mpr ⟨pool', freed, rfl⟩,
    ⟨entry, rfl, ?_, ?_, ?_⟩, ?_, index⟩
  · rw [table']
    exact nulled.length
  · rw [table']
    exact nulled.kept
  · intro i behind
    rw [table']
    by_cases inside : i < table.length
    · exact nulled.later i (by omega)
    · rw [List.getElem?_eq_none (not_lt.mp inside), List.getElem?_eq_none (by rw [nulled.length]; omega)]
  · refine ledger.step entry (.of_sameIndex index)
      (held.congr fun block different => counts block (index.nullBlock ▸ different))
      (fun block different absent _ unkeyed => ⟨(index.keysOf block).trans unkeyed, fun inside => ?_⟩)
      fun block here different => ?_
    · rw [table'] at inside
      obtain ⟨i, at_i⟩ := List.getElem?_of_mem inside
      exact (nulled.kept i block at_i).elim different fun same => absent (List.mem_of_getElem? same)
    · obtain ⟨i, behind, at_i⟩ := here
      rw [table'] at at_i
      have before := (nulled.kept i block at_i).resolve_left different
      obtain ⟨once, unkeyed⟩ := ledger.isolated manager (List.mem_append_right _ List.mem_cons_self) requestId block
        ⟨i, behind, before⟩ different
      have split := nulled.count block different
      have here := List.count_pos_iff.mpr (List.mem_of_getElem? at_i)
      have bound := at_most block
      exact ⟨by rw [counts block different]; omega, (index.keysOf block).trans unkeyed⟩

/-- A table that is looked up is made where it was not there. -/
theorem Ledger.looked (ledger : Ledger evicts pool free (pre ++ manager :: post)) (requestId : String) :
    Ledger evicts pool free (pre ++ manager.setBlocks requestId (manager.blocksOf requestId) :: post) := by
  have entry := entryStep_setBlocks manager requestId (manager.blocksOf requestId)
  have table : (manager.setBlocks requestId (manager.blocksOf requestId)).blocksOf requestId =
      manager.blocksOf requestId := blocksOf_setBlocks_self
  have counts : ∀ block, tableCount (pre ++ manager.setBlocks requestId (manager.blocksOf requestId) :: post) block =
      tableCount (pre ++ manager :: post) block := by
    intro block
    have step := tableCount_step pre post entry block
    rw [table] at step
    exact Nat.add_right_cancel step
  refine ledger.step entry (.refl pool) (ledger.held.congr fun block _ => counts block)
    (fun block _ absent _ unkeyed => ⟨unkeyed, by rwa [table]⟩) fun block here different => ?_
  rw [counts]
  refine ledger.isolated manager (List.mem_append_right _ List.mem_cons_self) requestId block ?_ different
  obtain ⟨i, behind, at_i⟩ := here
  exact ⟨i, behind, table ▸ at_i⟩

theorem removeSkippedBlocks_spec (ledger : Ledger evicts pool free (pre ++ manager :: post)) (requestId : String)
    (numTokens : Nat) :
    ∃ pool' free' manager', manager.removeSkippedBlocks pool requestId numTokens = .ok (pool', manager') ∧
      Shrunk requestId (numSkipped manager numTokens) manager manager' pool.nullBlock ∧
      Ledger evicts pool' free' (pre ++ manager' :: post) ∧ SameIndex pool pool' := by
  unfold removeSkippedBlocks
  dsimp only
  split
  · exact ⟨pool, free, manager, rfl, ⟨.refl _ _, rfl, rfl, fun _ _ => .inr, fun _ _ => rfl⟩, ledger, .refl pool⟩
  have entry := entryStep_setBlocks manager requestId (manager.blocksOf requestId)
  have table : (manager.setBlocks requestId (manager.blocksOf requestId)).blocksOf requestId =
      manager.blocksOf requestId := blocksOf_setBlocks_self
  obtain ⟨pool', free', manager', ran, shrunk, ledger', index⟩ := removeBlocksInRange_spec (ledger.looked requestId) requestId 0
    (min (numSkipped manager numTokens) (manager.blocksOf requestId).length)
  rw [table]
  refine ⟨pool', free', manager', ran, ⟨⟨shrunk.entry.config, fun other different => ?_, fun other different => ?_⟩,
    shrunk.numCachedBlock, shrunk.length.trans (by rw [table]), fun i block at_i => ?_, fun i behind => ?_⟩, ledger', index⟩
  · exact (shrunk.entry.tables other different).trans (entry.tables other different)
  · exact (shrunk.entry.cached other different).trans (entry.cached other different)
  · have before := shrunk.kept i block at_i
    rwa [table] at before
  · have before := shrunk.later i (by omega)
    rwa [table] at before

end Steps

/-! ### All managers in turn -/

section Loop

variable {α : Type} {step : Nat → SingleTypeKvCacheManager → BlockPool η →
  Except KvError (α × BlockPool η × SingleTypeKvCacheManager)}

/-- Each manager is taken to the one at its place, and gives what stands at its place. -/
structure Related (Rel : Nat → α → SingleTypeKvCacheManager → SingleTypeKvCacheManager → Prop) (outs : List α)
    (managers managers' : List SingleTypeKvCacheManager) : Prop where
  length : managers'.length = managers.length
  length_outs : outs.length = managers.length
  each : ∀ (k : Nat) (manager : SingleTypeKvCacheManager), managers[k]? = some manager →
    ∃ out manager', outs[k]? = some out ∧ managers'[k]? = some manager' ∧ Rel k out manager manager'

omit [DecidableEq η] in
/-- The rule for a loop over the managers: what holds before each of them holds after it, and what each leaves
is told by its index. -/
theorem forManagers_spec (pre : List SingleTypeKvCacheManager)
    (Inv : BlockPool η → List BlockRef → List SingleTypeKvCacheManager → Nat → Prop)
    (Rel : Nat → α → SingleTypeKvCacheManager → SingleTypeKvCacheManager → Prop)
    (one : ∀ pool free pre manager post, Inv pool free (pre ++ manager :: post) pre.length →
      ∃ out pool' free' manager', step pre.length manager pool = .ok (out, pool', manager') ∧
        Rel pre.length out manager manager' ∧ Inv pool' free' (pre ++ manager' :: post) (pre.length + 1))
    {pool : BlockPool η} {free : List BlockRef} {managers : List SingleTypeKvCacheManager}
    (start : Inv pool free (pre ++ managers) pre.length) :
    ∃ outs pool' free' managers', forManagers step pre.length managers pool = .ok (outs, pool', managers') ∧
      Related (fun k => Rel (pre.length + k)) outs managers managers' ∧
      Inv pool' free' (pre ++ managers') (pre.length + managers.length) := by
  induction managers generalizing pool free pre with
  | nil => exact ⟨[], pool, free, [], rfl, ⟨rfl, rfl, fun k manager here => by simp at here⟩, by simpa using start⟩
  | cons manager managers ih =>
    obtain ⟨out, mid, free', manager', ran, related, after⟩ := one pool free pre manager managers start
    have start' : Inv mid free' ((pre ++ [manager']) ++ managers) (pre ++ [manager']).length := by
      simpa using after
    obtain ⟨outs, last, free'', managers', looped, ⟨size, sizes, each⟩, done⟩ := ih _ start'
    rw [List.length_append, List.length_singleton] at looped each done
    refine ⟨out :: outs, last, free'', manager' :: managers', ?_,
      ⟨by simp [size], by simp [sizes], fun k other here => ?_⟩, ?_⟩
    · exact bind_eq_ok.mpr ⟨_, ran, bind_eq_ok.mpr ⟨_, looped, rfl⟩⟩
    · cases k with
      | zero =>
        obtain rfl := Option.some.inj here
        exact ⟨out, manager', rfl, rfl, related⟩
      | succ k =>
        obtain ⟨other_out, other', gave, there, relates⟩ := each k other here
        exact ⟨other_out, other', gave, there, by rwa [show pre.length + 1 + k = pre.length + (k + 1) by omega] at relates⟩
    · rw [List.length_cons, show pre.length + (managers.length + 1) = pre.length + 1 + managers.length by omega]
      simpa using done

end Loop

end DreamAifd.KvCache
