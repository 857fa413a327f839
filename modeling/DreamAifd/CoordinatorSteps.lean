import DreamAifd.TableSteps

/-! The allocation of slots: what the coordinator counts is enough for all that it then takes from the pool,
so the allocation never fails half way. -/
namespace DreamAifd.KvCache

open BlockPool SingleTypeKvCacheManager

variable {η : Type}

theorem cdiv_mono {a b : Nat} (le : a ≤ b) (c : Nat) : cdiv a c ≤ cdiv b c :=
  Nat.div_le_div_right (by omega)

theorem le_cdiv_mul {a b : Nat} (positive : 0 < b) : a ≤ cdiv a b * b := by
  have split := Nat.div_add_mod (a + (b - 1)) b
  have small := Nat.mod_lt (a + (b - 1)) positive
  rw [Nat.mul_comm] at split
  unfold cdiv
  omega

theorem div_le_cdiv (a b : Nat) : a / b ≤ cdiv a b := Nat.div_le_div_right (Nat.le_add_right ..)

def sumFrom (f : Nat → SingleTypeKvCacheManager → Nat) : Nat → List SingleTypeKvCacheManager → Nat
  | _, [] => 0
  | i, manager :: managers => f i manager + sumFrom f (i + 1) managers

theorem sumFrom_le {f g : Nat → SingleTypeKvCacheManager → Nat} {i : Nat} {managers : List SingleTypeKvCacheManager}
    (le : ∀ (k : Nat) (manager : SingleTypeKvCacheManager), managers[k]? = some manager → f (i + k) manager ≤ g (i + k) manager) :
    sumFrom f i managers ≤ sumFrom g i managers := by
  induction managers generalizing i with
  | nil => exact le_rfl
  | cons manager managers ih =>
    refine Nat.add_le_add (le 0 manager rfl) (ih fun k other here => ?_)
    have later := le (k + 1) other here
    rwa [show i + (k + 1) = i + 1 + k by omega] at later

theorem sumLoop_eq {newComputedBlocks : List (List BlockRef)} {requestId : String}
    {numTokens totalComputedTokens : Nat} {applyAdmissionCap : Bool} {pool : BlockPool η}
    {f : Nat → SingleTypeKvCacheManager → Nat} {i : Nat} {managers : List SingleTypeKvCacheManager}
    (each : ∀ (k : Nat) (manager : SingleTypeKvCacheManager), managers[k]? = some manager →
      manager.getNumBlocksToAllocate pool requestId numTokens (newComputedBlocks.getD (i + k) []) totalComputedTokens
        applyAdmissionCap = .ok (f (i + k) manager)) :
    KvCacheCoordinator.sumLoop newComputedBlocks requestId numTokens totalComputedTokens applyAdmissionCap pool i
      managers = .ok (sumFrom f i managers) := by
  induction managers generalizing i with
  | nil => rfl
  | cons manager managers ih =>
    refine bind_eq_ok.mpr ⟨_, each 0 manager rfl, bind_eq_ok.mpr ⟨_, ih fun k other here => ?_, rfl⟩⟩
    have later := each (k + 1) other here
    rwa [show i + (k + 1) = i + 1 + k by omega] at later

theorem exists_sumLoop {newComputedBlocks : List (List BlockRef)} {requestId : String}
    {numTokens totalComputedTokens : Nat} {applyAdmissionCap : Bool} {pool : BlockPool η} {i : Nat}
    {managers : List SingleTypeKvCacheManager}
    (each : ∀ (k : Nat) (manager : SingleTypeKvCacheManager), managers[k]? = some manager →
      ∃ n, manager.getNumBlocksToAllocate pool requestId numTokens (newComputedBlocks.getD (i + k) []) totalComputedTokens
        applyAdmissionCap = .ok n) :
    ∃ n, KvCacheCoordinator.sumLoop newComputedBlocks requestId numTokens totalComputedTokens applyAdmissionCap pool i
      managers = .ok n := by
  induction managers generalizing i with
  | nil => exact ⟨0, rfl⟩
  | cons manager managers ih =>
    obtain ⟨here, counted⟩ := each 0 manager rfl
    obtain ⟨later, summed⟩ := ih (i := i + 1) fun k other there => by
      have more := each (k + 1) other there
      rwa [show i + (k + 1) = i + 1 + k by omega] at more
    exact ⟨here + later, bind_eq_ok.mpr ⟨here, counted, bind_eq_ok.mpr ⟨later, summed, rfl⟩⟩⟩

/-- Of the free blocks go at most those that are found free. -/
theorem length_le_filter_add {free : List BlockRef} (distinct : free.Nodup) (blocks : List BlockRef) :
    free.length ≤ (free.filter (· ∉ blocks)).length + blocks.countP (· ∈ free) := by
  have split := List.length_eq_length_filter_add (l := free) (fun block => decide (block ∈ blocks))
  have inside : (free.filter (· ∈ blocks)).length ≤ (blocks.filter (· ∈ free)).length := by
    refine List.Subperm.length_le (List.subperm_of_subset (distinct.filter _) fun block member => ?_)
    obtain ⟨here, there⟩ := List.mem_filter.mp member
    exact List.mem_filter.mpr ⟨by simpa using there, by simpa using here⟩
  rw [← List.countP_eq_length_filter] at inside
  have same : (free.filter fun block => !decide (block ∈ blocks)) = free.filter (· ∉ blocks) := by
    refine List.filter_congr fun block _ => ?_
    simp
  rw [same] at split
  rw [List.countP_eq_length_filter] at inside ⊢
  omega

/-- What the managers of a coordinator are made with. -/
structure ManagerConfig.Wired (config : ManagerConfig) (schedulerBlockSize hashBlockSize : Nat) (enableCaching : Bool) :
    Prop where
  positive : 0 < config.spec.blockSize
  window : config.spec.attention ≠ .slidingWindow 0
  scheduler : config.schedulerBlockSize = schedulerBlockSize
  aligned : schedulerBlockSize % config.spec.blockSize = 0
  caching : config.enableCaching = enableCaching
  hashed : enableCaching = true → config.spec.blockSize % hashBlockSize = 0

section Counts

variable {manager : SingleTypeKvCacheManager} {requestId : String} {pool : BlockPool η} {blocks : List BlockRef}
  {numTokens totalComputedTokens : Nat} {applyAdmissionCap : Bool}

theorem numSkipped_le (window : manager.spec.attention ≠ .slidingWindow 0) (n : Nat) :
    numSkipped manager n ≤ n / manager.blockSize := by
  refine Nat.div_le_div_right ?_
  rw [SingleTypeKvCacheManager.getNumSkippedTokens]
  cases attention : manager.spec.attention with
  | fullAttention => exact Nat.zero_le _
  | slidingWindow w =>
    have positive : w ≠ 0 := fun zero => window (by rw [attention, zero])
    rw [AttentionType.getNumSkippedTokens]
    omega

/-- The count goes through where a request that is known to the cache brings no hits. -/
theorem exists_getNumBlocksToAllocate (known : (manager.numCachedBlock.get? requestId).isSome = true → blocks = []) :
    ∃ n, manager.getNumBlocksToAllocate pool requestId numTokens blocks totalComputedTokens applyAdmissionCap = .ok n := by
  unfold getNumBlocksToAllocate
  dsimp only
  split
  next here => rw [if_pos (known here)]; exact ⟨_, rfl⟩
  next => exact ⟨_, rfl⟩

/-- Without the cap. -/
theorem getNumBlocksToAllocate_uncapped (manager : SingleTypeKvCacheManager) (pool : BlockPool η) (requestId : String)
    (numTokens : Nat) (blocks : List BlockRef) (totalComputedTokens : Nat) :
    manager.getNumBlocksToAllocate pool requestId numTokens blocks totalComputedTokens false =
      if (manager.numCachedBlock.get? requestId).isSome then
        if blocks = [] then .ok (cdiv numTokens manager.blockSize - (manager.blocksOf requestId).length)
        else .error .assertionError
      else .ok (cdiv numTokens manager.blockSize - max (numSkipped manager totalComputedTokens)
          (blocks.length + (manager.blocksOf requestId).length) +
        getNumEvictableBlocks pool
          (blocks.drop (numSkipped manager totalComputedTokens - (manager.blocksOf requestId).length))) := by
  unfold getNumBlocksToAllocate
  cases manager.maxAdmissionBlocksPerRequest <;> rfl

/-- A request that has blocks for what is computed needs those that it lacks. -/
theorem getNumBlocksToAllocate_next (window : manager.spec.attention ≠ .slidingWindow 0)
    (covers : totalComputedTokens ≤ (manager.blocksOf requestId).length * manager.blockSize) :
    manager.getNumBlocksToAllocate pool requestId numTokens [] totalComputedTokens false =
      .ok (cdiv numTokens manager.blockSize - (manager.blocksOf requestId).length) := by
  have few : numSkipped manager totalComputedTokens ≤ (manager.blocksOf requestId).length :=
    (numSkipped_le window _).trans (Nat.div_le_of_le_mul (by rwa [Nat.mul_comm] at covers))
  rw [getNumBlocksToAllocate_uncapped, if_pos rfl, List.length_nil, Nat.zero_add, Nat.max_eq_right few, List.drop_nil]
  split <;> rfl

/-- A request that comes with hits needs what they leave, and those of them that are free. -/
theorem getNumBlocksToAllocate_first (unknown : manager.numCachedBlock.get? requestId = none)
    (empty : manager.blocksOf requestId = []) :
    manager.getNumBlocksToAllocate pool requestId numTokens blocks totalComputedTokens false =
      .ok (cdiv numTokens manager.blockSize - max (numSkipped manager totalComputedTokens) blocks.length +
        getNumEvictableBlocks pool (blocks.drop (numSkipped manager totalComputedTokens))) := by
  rw [getNumBlocksToAllocate_uncapped, unknown, empty]
  rfl

end Counts

variable [DecidableEq η] {evicts : Bool} {pool : BlockPool η} {free blocks : List BlockRef}

/-- A block of a hit that nobody holds is in the free list. -/
theorem getNumEvictableBlocks_eq {count : BlockRef → Nat} (held : Held evicts pool free count)
    (found : FromCache pool blocks) : getNumEvictableBlocks pool blocks = blocks.countP (· ∈ free) := by
  refine List.countP_congr fun block member => ?_
  rw [decide_eq_true_iff, decide_eq_true_iff, held.mem_free, held.isNull_iff]
  constructor
  · rintro ⟨unused, different⟩
    have inside := (held.keyed ((found block member).resolve_left different)).1
    rw [held.refCnt different] at unused
    exact ⟨inside, different, by exact_mod_cast unused⟩
  · rintro ⟨_, different, unused⟩
    exact ⟨by rw [held.refCnt different, unused]; rfl, different⟩

/-! ### Steps of all managers -/

omit [DecidableEq η] in
/-- The rule of `forManagers_spec` for a coordinator. -/
theorem KvCacheCoordinator.update_spec {α : Type} {coordinator : KvCacheCoordinator η}
    (step : Nat → SingleTypeKvCacheManager → BlockPool η → Except KvError (α × BlockPool η × SingleTypeKvCacheManager))
    (Inv : BlockPool η → List BlockRef → List SingleTypeKvCacheManager → Nat → Prop)
    (Rel : Nat → α → SingleTypeKvCacheManager → SingleTypeKvCacheManager → Prop)
    (one : ∀ pool free pre manager post, Inv pool free (pre ++ manager :: post) pre.length →
      ∃ out pool' free' manager', step pre.length manager pool = .ok (out, pool', manager') ∧
        Rel pre.length out manager manager' ∧ Inv pool' free' (pre ++ manager' :: post) (pre.length + 1))
    (start : Inv coordinator.pool free coordinator.managers 0) :
    ∃ outs pool' free' managers', coordinator.update step =
        .ok (outs, { coordinator with pool := pool', managers := managers' }) ∧
      Related Rel outs coordinator.managers managers' ∧ Inv pool' free' managers' coordinator.managers.length := by
  obtain ⟨outs, pool', free', managers', ran, related, done⟩ :=
    forManagers_spec [] Inv Rel one (by simpa using start)
  refine ⟨outs, pool', free', managers', bind_eq_ok.mpr ⟨_, ran, rfl⟩, ?_, by simpa using done⟩
  simpa using related

def lacking (requestId : String) (numTokens : Nat) (managers : List SingleTypeKvCacheManager) : Nat :=
  (managers.map fun manager => cdiv numTokens manager.blockSize - (manager.blocksOf requestId).length).sum

theorem lacking_split (requestId : String) (numTokens : Nat) (pre post : List SingleTypeKvCacheManager)
    (manager : SingleTypeKvCacheManager) : lacking requestId numTokens (pre ++ manager :: post) =
      lacking requestId numTokens pre + (cdiv numTokens manager.blockSize - (manager.blocksOf requestId).length) +
        lacking requestId numTokens post := by
  simp [lacking, Nat.add_assoc]

theorem sumFrom_eq_lacking (requestId : String) (numTokens i : Nat) (managers : List SingleTypeKvCacheManager) :
    sumFrom (fun _ manager => cdiv numTokens manager.blockSize - (manager.blocksOf requestId).length) i managers =
      lacking requestId numTokens managers := by
  induction managers generalizing i with
  | nil => rfl
  | cons manager managers ih => rw [sumFrom, ih, lacking, lacking, List.map_cons, List.sum_cons]

theorem SingleTypeKvCacheManager.EntryStep.blockSize {requestId : String} {manager manager' : SingleTypeKvCacheManager}
    (step : EntryStep requestId manager manager') : manager'.blockSize = manager.blockSize := by
  rw [SingleTypeKvCacheManager.blockSize, SingleTypeKvCacheManager.blockSize, step.config]

structure Adopted (requestId : String) (newComputedBlocks : List (List BlockRef)) (numTokens : Nat) (nullBlock : BlockRef)
    (i : Nat) (_ : Unit) (manager manager' : SingleTypeKvCacheManager) : Prop where
  entry : EntryStep requestId manager manager'
  table : manager'.blocksOf requestId = List.replicate (numSkipped manager numTokens) nullBlock ++
    (newComputedBlocks.getD i []).drop (numSkipped manager numTokens)
  cached : manager'.numCachedBlock.get? requestId = some (manager'.blocksOf requestId).length

/-- The blocks that a request with hits needs of a manager: those that the hits leave, and the free ones of the hits. -/
def needOf (newComputedBlocks : List (List BlockRef)) (numTokens totalTokens : Nat) (free : List BlockRef) (i : Nat)
    (manager : SingleTypeKvCacheManager) : Nat :=
  cdiv numTokens manager.blockSize - max (numSkipped manager totalTokens) (newComputedBlocks.getD i []).length +
    ((newComputedBlocks.getD i []).drop (numSkipped manager totalTokens)).countP (· ∈ free)

/-- The hits are touched in all groups, and what the request lacks then is left in the free list. -/
theorem adopt_spec {coordinator : KvCacheCoordinator η} {requestId : String} {newComputedBlocks : List (List BlockRef)}
    {numTokens numLocal numExternal : Nat} (ledger : Ledger evicts coordinator.pool free coordinator.managers)
    (empty : ∀ manager ∈ coordinator.managers, manager.blocksOf requestId = [])
    (found : ∀ (i : Nat) (manager : SingleTypeKvCacheManager), coordinator.managers[i]? = some manager →
      FromCache coordinator.pool (newComputedBlocks.getD i []) ∧
        (manager.enableCaching = true ∨ newComputedBlocks.getD i [] = []))
    (enough : sumFrom (needOf newComputedBlocks numTokens (numLocal + numExternal) free) 0 coordinator.managers ≤ free.length) :
    ∃ outs pool' free' managers', (coordinator.update fun i manager pool => KvCacheCoordinator.quiet
        (manager.addLocalComputedBlocks pool requestId (newComputedBlocks.getD i []) numLocal numExternal)) =
          .ok (outs, { coordinator with pool := pool', managers := managers' }) ∧
      Related (Adopted requestId newComputedBlocks (numLocal + numExternal) coordinator.pool.nullBlock) outs
        coordinator.managers managers' ∧
      Ledger evicts pool' free' managers' ∧ SameIndex coordinator.pool pool' ∧
      lacking requestId numTokens managers' ≤ free'.length := by
  set total := numLocal + numExternal with total_eq
  let Inv : BlockPool η → List BlockRef → List SingleTypeKvCacheManager → Nat → Prop := fun pool free managers k =>
    Ledger evicts pool free managers ∧ SameIndex coordinator.pool pool ∧ managers.drop k = coordinator.managers.drop k ∧
      lacking requestId numTokens (managers.take k) +
        sumFrom (needOf newComputedBlocks numTokens total free) k (managers.drop k) ≤ free.length
  let step : Nat → SingleTypeKvCacheManager → BlockPool η → Except KvError (Unit × BlockPool η × SingleTypeKvCacheManager) :=
    fun i manager pool => KvCacheCoordinator.quiet
      (manager.addLocalComputedBlocks pool requestId (newComputedBlocks.getD i []) numLocal numExternal)
  have one : ∀ pool free pre manager post, Inv pool free (pre ++ manager :: post) pre.length →
      ∃ out pool' free' manager', step pre.length manager pool = .ok (out, pool', manager') ∧
        Adopted requestId newComputedBlocks total coordinator.pool.nullBlock pre.length out manager manager' ∧
        Inv pool' free' (pre ++ manager' :: post) (pre.length + 1) := by
    rintro pool free pre manager post ⟨ledger, index, rest, bound⟩
    rw [List.drop_left] at rest bound
    rw [List.take_left, sumFrom] at bound
    have here : coordinator.managers[pre.length]? = some manager := by
      have first := congrArg List.head? rest
      rwa [List.head?_drop, List.head?_cons, eq_comm] at first
    obtain ⟨cached, caching⟩ := found pre.length manager here
    have cached' := cached.of_kept index
    obtain ⟨pool', manager', ran, entry, table, count, ledger', index'⟩ :=
      addLocalComputedBlocks_spec ledger (empty manager (List.mem_of_getElem? here)) cached' caching
    rw [← total_eq] at table ledger'
    rw [index.nullBlock] at table
    refine ⟨(), pool', _, manager', ?_, ⟨entry, table, count⟩, ledger', index.trans index', ?_, ?_⟩
    · exact congrArg (Except.map _) ran
    · have shift : ∀ xs : List SingleTypeKvCacheManager, (pre ++ manager' :: xs).drop (pre.length + 1) = xs := by simp
      rw [shift]
      have tails := congrArg List.tail rest
      rwa [List.tail_cons, List.tail_drop] at tails
    · have front : (pre ++ manager' :: post).take (pre.length + 1) = pre ++ [manager'] := by simp [List.take_append]
      have back : (pre ++ manager' :: post).drop (pre.length + 1) = post := by simp
      rw [front, back, lacking_split, table, entry.blockSize]
      set blocks := newComputedBlocks.getD pre.length [] with blocks_eq
      set skipped := numSkipped manager total with skipped_eq
      have taken := length_le_filter_add ledger.held.nodup (blocks.drop skipped)
      have later : sumFrom (needOf newComputedBlocks numTokens total (free.filter (· ∉ blocks.drop skipped)))
          (pre.length + 1) post ≤ sumFrom (needOf newComputedBlocks numTokens total free) (pre.length + 1) post := by
        refine sumFrom_le fun k other _ => Nat.add_le_add_left (List.countP_mono_left fun block _ inside => ?_) _
        rw [decide_eq_true_iff] at inside ⊢
        exact (List.mem_filter.mp inside).1
      have size : (List.replicate skipped coordinator.pool.nullBlock ++ blocks.drop skipped).length =
          max skipped blocks.length := by
        rw [List.length_append, List.length_replicate, List.length_drop]
        omega
      rw [size, show lacking requestId numTokens [] = 0 from rfl]
      rw [needOf, ← blocks_eq, ← skipped_eq] at bound
      omega
  obtain ⟨outs, pool', free', managers', ran, related, ledger', index, -, bound⟩ := coordinator.update_spec step Inv
    (Adopted requestId newComputedBlocks total coordinator.pool.nullBlock) one
    ⟨ledger, .refl _, rfl, by simpa [lacking] using enough⟩
  refine ⟨outs, pool', free', managers', ran, related, ledger', index, ?_⟩
  rw [List.take_of_length_le related.length.le, List.drop_eq_nil_of_le related.length.le, sumFrom] at bound
  exact bound

structure Dropped (pool pool' : BlockPool η) : Prop extends SamePool pool pool' where
  under : ∀ key block, block ∈ pool'.under key → block ∈ pool.under key

namespace Dropped

variable {pool pool' pool'' : BlockPool η}

theorem refl (pool : BlockPool η) : Dropped pool pool := ⟨.refl pool, fun _ _ => id⟩

theorem trans (first : Dropped pool pool') (second : Dropped pool' pool'') : Dropped pool pool'' :=
  ⟨first.toSamePool.trans second.toSamePool, fun key block => first.under key block ∘ second.under key block⟩

theorem of_sameIndex (same : SameIndex pool pool') : Dropped pool pool' :=
  ⟨.of_sameIndex same, (KeysKept.of_sameIndex same).under⟩

end Dropped

structure Grown (requestId : String) (fresh : List BlockRef) (manager manager' : SingleTypeKvCacheManager) : Prop where
  entry : EntryStep requestId manager manager'
  cached : manager'.numCachedBlock = manager.numCachedBlock
  table : manager'.blocksOf requestId = manager.blocksOf requestId ++ fresh

theorem Grown.refl (requestId : String) (manager : SingleTypeKvCacheManager) : Grown requestId [] manager manager :=
  ⟨.refl _ _, rfl, (List.append_nil _).symm⟩

/-- The new blocks are of those that the request lacks. -/
theorem extend_lacking {requestId : String} {numTokens n : Nat} {pre post : List SingleTypeKvCacheManager}
    {manager : SingleTypeKvCacheManager} (ledger : Ledger evicts pool free (pre ++ manager :: post))
    (lacked : n ≤ cdiv numTokens manager.blockSize - (manager.blocksOf requestId).length)
    (enough : lacking requestId numTokens (pre ++ manager :: post) ≤ free.length) :
    ∃ fresh pool' free' manager', manager.extendBlocks pool requestId n = .ok (fresh, pool', manager') ∧
      Grown requestId fresh manager manager' ∧ fresh.length = n ∧ Ledger evicts pool' free' (pre ++ manager' :: post) ∧
      lacking requestId numTokens (pre ++ manager' :: post) ≤ free'.length ∧ Dropped pool pool' := by
  rw [lacking_split] at enough
  have short : n ≤ free.length := by omega
  obtain ⟨pool', manager', ran, entry, table, cached, ledger', same, kept⟩ := extendBlocks_spec ledger requestId short
  have size : (free.take n).length = n := by rw [List.length_take, min_eq_left short]
  refine ⟨_, pool', _, manager', ran, ⟨entry, cached, table⟩, size, ledger', ?_, ⟨same, kept.under⟩⟩
  rw [lacking_split, table, entry.blockSize, List.length_append, size, List.length_drop]
  omega

/-- What holds between the steps that take blocks for a request. -/
structure Growing (evicts : Bool) (requestId : String) (numTokens : Nat) (pool : BlockPool η) (pool' : BlockPool η)
    (free : List BlockRef) (managers : List SingleTypeKvCacheManager) : Prop where
  ledger : Ledger evicts pool' free managers
  dropped : Dropped pool pool'
  enough : lacking requestId numTokens managers ≤ free.length

/-- The blocks for tokens from elsewhere are taken from those that the request lacks. -/
theorem external_spec (coordinator : KvCacheCoordinator η) {requestId : String} {numTokens numLocal numExternal : Nat}
    (ledger : Ledger evicts coordinator.pool free coordinator.managers) (within : numLocal + numExternal ≤ numTokens)
    (enough : lacking requestId numTokens coordinator.managers ≤ free.length) :
    ∃ outs pool' free' managers', (coordinator.update fun _ manager pool => KvCacheCoordinator.quiet
        (manager.allocateExternalComputedBlocks pool requestId numLocal numExternal)) =
          .ok (outs, { coordinator with pool := pool', managers := managers' }) ∧
      Related (fun _ _ manager manager' => ∃ fresh, Grown requestId fresh manager manager') outs
        coordinator.managers managers' ∧
      Growing evicts requestId numTokens coordinator.pool pool' free' managers' := by
  let step : Nat → SingleTypeKvCacheManager → BlockPool η → Except KvError (Unit × BlockPool η × SingleTypeKvCacheManager) :=
    fun _ manager pool => KvCacheCoordinator.quiet
      (manager.allocateExternalComputedBlocks pool requestId numLocal numExternal)
  refine coordinator.update_spec step (fun pool free managers _ =>
    Growing evicts requestId numTokens coordinator.pool pool free managers) _ ?_ ⟨ledger, .refl _, enough⟩
  rintro pool free pre manager post ⟨ledger, dropped, enough⟩
  by_cases nothing : (if 0 < manager.getNumSkippedTokens (numLocal + numExternal) then
      min (numLocal + numExternal - manager.getNumSkippedTokens (numLocal + numExternal)) numExternal
    else numExternal) = 0
  · refine ⟨(), pool, free, manager, ?_, ⟨[], .refl _ _⟩, ledger, dropped, enough⟩
    refine congrArg (Except.map _) (?_ : _ = Except.ok (pool, manager))
    exact if_pos nothing
  · have lacked : cdiv (numLocal + numExternal) manager.blockSize - (manager.blocksOf requestId).length ≤
        cdiv numTokens manager.blockSize - (manager.blocksOf requestId).length :=
      Nat.sub_le_sub_right (cdiv_mono within _) _
    obtain ⟨fresh, pool', free', manager', ran, grown, _, ledger', enough', dropped'⟩ := extend_lacking ledger lacked enough
    refine ⟨(), pool', free', manager', ?_, ⟨fresh, grown⟩, ledger', dropped.trans dropped', enough'⟩
    refine congrArg (Except.map _) (?_ : _ = Except.ok (pool', manager'))
    refine (if_neg nothing).trans ?_
    rw [ran]
    rfl

/-- Every table gets the blocks for all tokens. -/
theorem allocateNewBlocks_spec (coordinator : KvCacheCoordinator η) {requestId : String} {numTokens : Nat}
    (ledger : Ledger evicts coordinator.pool free coordinator.managers)
    (enough : lacking requestId numTokens coordinator.managers ≤ free.length) :
    ∃ outs pool' free' managers', coordinator.allocateNewBlocks requestId numTokens =
        .ok (outs, { coordinator with pool := pool', managers := managers' }) ∧
      Related (fun _ fresh manager manager' => Grown requestId fresh manager manager' ∧
        cdiv numTokens manager.blockSize ≤ (manager'.blocksOf requestId).length) outs coordinator.managers managers' ∧
      Growing evicts requestId numTokens coordinator.pool pool' free' managers' := by
  refine coordinator.update_spec (fun _ manager pool => manager.allocateNewBlocks pool requestId numTokens)
    (fun pool free managers _ => Growing evicts requestId numTokens coordinator.pool pool free managers) _ ?_
    ⟨ledger, .refl _, enough⟩
  rintro pool free pre manager post ⟨ledger, dropped, enough⟩
  unfold SingleTypeKvCacheManager.allocateNewBlocks
  dsimp only
  split
  next covered =>
    set manager' := manager.setBlocks requestId (manager.blocksOf requestId) with manager_eq
    have entry := entryStep_setBlocks manager requestId (manager.blocksOf requestId)
    have table : manager'.blocksOf requestId = manager.blocksOf requestId := blocksOf_setBlocks_self
    refine ⟨[], pool, free, manager', rfl, ⟨⟨entry, rfl, by rw [table, List.append_nil]⟩, by rwa [table]⟩,
      ledger.looked requestId, dropped, ?_⟩
    rw [lacking_split] at enough ⊢
    rwa [table]
  next more =>
    obtain ⟨fresh, pool', free', manager', ran, grown, size, ledger', enough', dropped'⟩ :=
      extend_lacking ledger le_rfl enough
    refine ⟨fresh, pool', free', manager', ran, ⟨grown, ?_⟩, ledger', dropped.trans dropped', enough'⟩
    rw [grown.table, List.length_append, size]
    omega

omit [DecidableEq η] in
theorem resolveBlockHashes_eq {request : Request η} {hashBlockSize blockSize : Nat}
    (divides : blockSize % hashBlockSize = 0) : resolveBlockHashes request hashBlockSize blockSize =
      .ok (hashesOfSize request.blockHashes hashBlockSize blockSize) := by
  unfold resolveBlockHashes hashesOfSize
  rw [if_pos divides]
  split <;> rfl

theorem exists_reachableBlockMask {manager : SingleTypeKvCacheManager} {hashBlockSize schedulerBlockSize : Nat}
    (wired : manager.Wired schedulerBlockSize hashBlockSize true) (startBlock endBlock : Nat)
    (retentionInterval : Option Nat) (numPromptTokens : Nat) :
    ∃ mask, manager.reachableBlockMask startBlock endBlock retentionInterval numPromptTokens = .ok mask ∧
      mask.all fun mask => mask.length = endBlock - startBlock := by
  unfold reachableBlockMask
  split
  · exact ⟨none, rfl, rfl⟩
  next slidingWindow _ =>
    have aligned : ¬ manager.schedulerBlockSize % manager.blockSize ≠ 0 := by
      rw [wired.scheduler, not_not]
      exact wired.aligned
    unfold SlidingWindowManager.reachableBlockMask
    rw [if_neg aligned]
    exact (ite_eq_or_eq _ _ _).elim (fun all => ⟨none, all, rfl⟩) fun some_of => ⟨_, some_of, by simp⟩

/-- What the full blocks of a request, up to a token, can be found by. -/
def CachedAs (request : Request η) (hashBlockSize : Nat) (manager : SingleTypeKvCacheManager) (numFullBlocks : Nat)
    (key : η × Nat) (block : BlockRef) : Prop :=
  ∃ j, manager.numCached request.requestId ≤ j ∧ j < numFullBlocks ∧
    (manager.blocksOf request.requestId)[j]? = some block ∧
    (hashesOfSize request.blockHashes hashBlockSize manager.blockSize)[j]? = some key.1 ∧ key.2 = manager.kvCacheGroupId

/-- The full blocks that are not cached yet have hashes, so they can be cached. -/
theorem cacheBlocks_spec {pre post : List SingleTypeKvCacheManager} {manager : SingleTypeKvCacheManager}
    (ledger : Ledger evicts pool free (pre ++ manager :: post)) {request : Request η} {numTokens schedulerBlockSize : Nat}
    (wired : manager.Wired schedulerBlockSize pool.hashBlockSize true) (retentionInterval : Option Nat)
    (long : numTokens / manager.blockSize ≤ (manager.blocksOf request.requestId).length)
    (hashed : numTokens / manager.blockSize ≤
      (hashesOfSize request.blockHashes pool.hashBlockSize manager.blockSize).length) :
    ∃ pool' manager', manager.cacheBlocks pool request numTokens retentionInterval = .ok (pool', manager') ∧
      ∀ key block, block ∈ pool'.under key → block ∈ pool.under key ∨ block ≠ pool.nullBlock ∧
        CachedAs request pool.hashBlockSize manager (numTokens / manager.blockSize) key block := by
  unfold SingleTypeKvCacheManager.cacheBlocks
  dsimp only
  split
  · exact ⟨pool, manager, rfl, fun _ _ => .inl⟩
  next more =>
    set table := manager.blocksOf request.requestId with table_eq
    set numFull := numTokens / manager.blockSize with full_eq
    obtain ⟨mask, masked, size⟩ := exists_reachableBlockMask wired (manager.numCached request.requestId) numFull
      retentionInterval request.numPromptTokens
    obtain ⟨real, distinct⟩ := ledger.openSlice request.requestId numFull
    obtain ⟨pool', cached, caches⟩ := cacheFullBlocks_caches ledger.held.indexed (not_le.mp more) long size
      (resolveBlockHashes_eq (wired.hashed rfl)) hashed (fun block member => (real block member).2.2.2) distinct
    refine ⟨pool', _, bind_eq_ok.mpr ⟨mask, masked, bind_eq_ok.mpr ⟨pool', cached, rfl⟩⟩, fun key block there => ?_⟩
    refine (caches key block there).imp_right ?_
    rintro ⟨j, behind, before, at_j, not_null, hash, group⟩
    refine ⟨fun null => ?_, j, behind, before, at_j, hash, group⟩
    rw [(ledger.held.isNull_iff block).mpr null] at not_null
    exact Bool.noConfusion not_null

structure Recached (requestId : String) (numFullBlocks : Nat) (manager manager' : SingleTypeKvCacheManager) : Prop where
  entry : EntryStep requestId manager manager'
  tables : manager'.reqToBlocks = manager.reqToBlocks
  cached : manager'.numCached requestId = max (manager.numCached requestId) numFullBlocks

namespace KvCacheCoordinator

variable {coordinator : KvCacheCoordinator η} {requestId : String}

omit [DecidableEq η] in
theorem numTokensToCache_le (coordinator : KvCacheCoordinator η) (manager : SingleTypeKvCacheManager) (n : Nat) :
    coordinator.numTokensToCache manager n ≤ n := by
  have aligned := Nat.div_mul_le_self n coordinator.schedulerBlockSize
  unfold numTokensToCache
  split
  · dsimp only
    split
    · exact min_le_left ..
    · exact aligned
  · exact le_rfl

/-- The full blocks of a group among so many tokens of a request, as far as they are cached. -/
def numBlocksToCache (coordinator : KvCacheCoordinator η) (numTokens : Nat) (manager : SingleTypeKvCacheManager) : Nat :=
  coordinator.numTokensToCache manager numTokens / manager.blockSize

structure Caches (request : Request η) (numTokens : Nat) (coordinator : KvCacheCoordinator η) (pool' : BlockPool η) :
    Prop extends SamePool coordinator.pool pool' where
  under : ∀ key block, block ∈ pool'.under key → block ∈ coordinator.pool.under key ∨
    block ≠ coordinator.pool.nullBlock ∧ ∃ manager ∈ coordinator.managers, CachedAs request
      coordinator.pool.hashBlockSize manager (coordinator.numBlocksToCache numTokens manager) key block

theorem cacheBlocks_spec (coordinator : KvCacheCoordinator η) (request : Request η) (numTokens : Nat)
    (ledger : Ledger evicts coordinator.pool free coordinator.managers) (caching : coordinator.pool.enableCaching = true)
    (each : ∀ manager ∈ coordinator.managers,
      manager.Wired coordinator.schedulerBlockSize coordinator.pool.hashBlockSize true ∧
        numTokens / manager.blockSize ≤ (manager.blocksOf request.requestId).length ∧ numTokens / manager.blockSize ≤
          (hashesOfSize request.blockHashes coordinator.pool.hashBlockSize manager.blockSize).length) :
    ∃ outs pool' free' managers', coordinator.cacheBlocks request numTokens =
        .ok { coordinator with pool := pool', managers := managers' } ∧
      Related (fun _ (_ : Unit) manager manager' => Recached request.requestId (coordinator.numBlocksToCache numTokens manager)
        manager manager') outs coordinator.managers managers' ∧
      Ledger evicts pool' free' managers' ∧ Caches request numTokens coordinator pool' := by
  let step : Nat → SingleTypeKvCacheManager → BlockPool η → Except KvError (Unit × BlockPool η × SingleTypeKvCacheManager) :=
    fun _ manager pool => quiet (manager.cacheBlocks pool request (coordinator.numTokensToCache manager numTokens)
      coordinator.retentionInterval)
  let Inv : BlockPool η → List BlockRef → List SingleTypeKvCacheManager → Nat → Prop := fun pool free managers k =>
    Ledger evicts pool free managers ∧ Caches request numTokens coordinator pool ∧
      managers.drop k = coordinator.managers.drop k
  have one : ∀ pool free pre manager post, Inv pool free (pre ++ manager :: post) pre.length →
      ∃ out pool' free' manager', step pre.length manager pool = .ok (out, pool', manager') ∧
        Recached request.requestId (coordinator.numBlocksToCache numTokens manager) manager manager' ∧
        Inv pool' free' (pre ++ manager' :: post) (pre.length + 1) := by
    rintro pool free pre manager post ⟨ledger, caches, rest⟩
    rw [List.drop_left] at rest
    have here : manager ∈ coordinator.managers := List.mem_of_mem_drop (rest ▸ List.mem_cons_self)
    obtain ⟨wired, long, hashed⟩ := each manager here
    have fewer : coordinator.numTokensToCache manager numTokens / manager.blockSize ≤ numTokens / manager.blockSize :=
      Nat.div_le_div_right (coordinator.numTokensToCache_le manager numTokens)
    obtain ⟨pool', manager', ran, found⟩ := KvCache.cacheBlocks_spec ledger
      (by rwa [caches.hashBlockSize]) coordinator.retentionInterval (fewer.trans long)
      (by rw [caches.hashBlockSize]; exact fewer.trans hashed)
    obtain ⟨entry, tables, cached, ledger', same⟩ :=
      cacheBlocks_ledger ledger (caches.enableCaching.trans caching) ran
    refine ⟨(), pool', free, manager', congrArg (Except.map _) ran, ⟨entry, tables, cached⟩, ledger',
      ⟨caches.toSamePool.trans same, fun key block there => ?_⟩, ?_⟩
    · rcases found key block there with before | ⟨different, as⟩
      · exact caches.under key block before
      · rw [caches.hashBlockSize] at as
        exact .inr ⟨caches.nullBlock ▸ different, manager, here, as⟩
    · have tails := congrArg List.tail rest
      rw [List.tail_cons, List.tail_drop] at tails
      simpa using tails
  obtain ⟨outs, pool', free', managers', ran, related, ledger', caches, -⟩ := coordinator.update_spec step Inv
    (fun _ _ manager => Recached request.requestId (coordinator.numBlocksToCache numTokens manager) manager) one
    ⟨ledger, ⟨.refl _, fun _ _ => .inl⟩, rfl⟩
  exact ⟨outs, pool', free', managers', bind_eq_ok.mpr ⟨_, ran, rfl⟩, related, ledger', caches⟩

structure Forgotten (requestId : String) (manager manager' : SingleTypeKvCacheManager) : Prop where
  entry : EntryStep requestId manager manager'
  tables : manager'.reqToBlocks.get? requestId = none
  cached : manager'.numCachedBlock.get? requestId = none

theorem free_spec (ledger : Ledger evicts coordinator.pool free coordinator.managers) (requestId : String) :
    ∃ outs pool' free' managers', coordinator.free requestId =
        .ok { coordinator with pool := pool', managers := managers' } ∧
      Related (fun _ (_ : Unit) => Forgotten requestId) outs coordinator.managers managers' ∧
      Ledger evicts pool' free' managers' ∧ SameIndex coordinator.pool pool' := by
  let step : Nat → SingleTypeKvCacheManager → BlockPool η → Except KvError (Unit × BlockPool η × SingleTypeKvCacheManager) :=
    fun _ manager pool => quiet (manager.free pool requestId)
  let Inv : BlockPool η → List BlockRef → List SingleTypeKvCacheManager → Nat → Prop := fun pool free managers _ =>
    Ledger evicts pool free managers ∧ SameIndex coordinator.pool pool
  have one : ∀ pool free pre manager post, Inv pool free (pre ++ manager :: post) pre.length →
      ∃ out pool' free' manager', step pre.length manager pool = .ok (out, pool', manager') ∧
        Forgotten requestId manager manager' ∧ Inv pool' free' (pre ++ manager' :: post) (pre.length + 1) := by
    rintro pool free pre manager post ⟨ledger, index⟩
    obtain ⟨pool', free', manager', ran, entry, tables, cached, ledger', index'⟩ := KvCache.free_spec ledger requestId
    exact ⟨(), pool', free', manager', congrArg (Except.map _) ran, ⟨entry, tables, cached⟩, ledger', index.trans index'⟩
  obtain ⟨outs, pool', free', managers', ran, related, ledger', index⟩ := coordinator.update_spec step Inv
    (fun _ _ => Forgotten requestId) one ⟨ledger, .refl _⟩
  exact ⟨outs, pool', free', managers', bind_eq_ok.mpr ⟨_, ran, rfl⟩, related, ledger', index⟩

theorem removeSkippedBlocks_spec (ledger : Ledger evicts coordinator.pool free coordinator.managers) (requestId : String)
    (numTokens : Nat) :
    ∃ outs pool' free' managers', coordinator.removeSkippedBlocks requestId numTokens =
        .ok { coordinator with pool := pool', managers := managers' } ∧
      Related (fun _ (_ : Unit) manager manager' => Shrunk requestId (numSkipped manager numTokens) manager manager'
        coordinator.pool.nullBlock) outs coordinator.managers managers' ∧
      Ledger evicts pool' free' managers' ∧ SameIndex coordinator.pool pool' := by
  let step : Nat → SingleTypeKvCacheManager → BlockPool η → Except KvError (Unit × BlockPool η × SingleTypeKvCacheManager) :=
    fun _ manager pool => quiet (manager.removeSkippedBlocks pool requestId numTokens)
  let Inv : BlockPool η → List BlockRef → List SingleTypeKvCacheManager → Nat → Prop := fun pool free managers _ =>
    Ledger evicts pool free managers ∧ SameIndex coordinator.pool pool
  have one : ∀ pool free pre manager post, Inv pool free (pre ++ manager :: post) pre.length →
      ∃ out pool' free' manager', step pre.length manager pool = .ok (out, pool', manager') ∧
        Shrunk requestId (numSkipped manager numTokens) manager manager' coordinator.pool.nullBlock ∧
        Inv pool' free' (pre ++ manager' :: post) (pre.length + 1) := by
    rintro pool free pre manager post ⟨ledger, index⟩
    obtain ⟨pool', free', manager', ran, shrunk, ledger', index'⟩ :=
      KvCache.removeSkippedBlocks_spec ledger requestId numTokens
    rw [index.nullBlock] at shrunk
    exact ⟨(), pool', free', manager', congrArg (Except.map _) ran, shrunk, ledger', index.trans index'⟩
  obtain ⟨outs, pool', free', managers', ran, related, ledger', index⟩ := coordinator.update_spec step Inv
    (fun _ _ manager manager' => Shrunk requestId (numSkipped manager numTokens) manager manager' coordinator.pool.nullBlock)
    one ⟨ledger, .refl _⟩
  exact ⟨outs, pool', free', managers', bind_eq_ok.mpr ⟨_, ran, rfl⟩, related, ledger', index⟩

end KvCacheCoordinator

end DreamAifd.KvCache
